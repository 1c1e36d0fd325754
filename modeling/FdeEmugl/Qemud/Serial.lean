import FdeEmugl.Library.Framing
import FdeEmugl.Library.Runs
import FdeEmugl.Qemud.Sink

/-!
# The serial line of qemud

The bytes of the serial line are packets: a channel in two hexadecimal digits, a length in four, and the
payload. The reader is given the bytes in pieces of any size and may be saved and loaded between them. What
it should do with a packet that is too long for its buffer is to skip it; it skips everything that comes
after it too, since the count of what is to be skipped never goes down.
-/

namespace FdeEmugl.Qemud

open Framing Overwrite Runs FdeEmugl.Stream

def HEADER_SIZE : ℕ := 6
def LENGTH_OFFSET : ℕ := 2
def LENGTH_SIZE : ℕ := 4
def CHANNEL_OFFSET : ℕ := 0
def CHANNEL_SIZE : ℕ := 2
def MAX_SERIAL_PAYLOAD : ℕ := 4000

structure QemudSerial where
  need_header : Bool
  overflow : ℕ
  in_size : ℤ
  in_channel : ℤ
  header : QemudSink
  payload : QemudSink
  data0 : List UInt8
deriving DecidableEq

namespace QemudSerial

variable (s : QemudSerial)

/-- `qemud_serial_init`. The buffer is not initialized. -/
def init (data0 : List UInt8) : QemudSerial := ⟨true, 0, 0, -1, .reset HEADER_SIZE, ⟨0, 0⟩, data0⟩

def save : List UInt8 :=
  stream_put_be32 (if s.need_header then 1 else 0) ++ stream_put_be32 s.overflow ++ stream_put_be32 s.in_size ++
    stream_put_be32 s.in_channel ++ s.header.save ++ s.payload.save ++
    stream_put_be32 (MAX_SERIAL_PAYLOAD + 1 : ℕ) ++ s.data0

def EIO : ℤ := 5

/-- The bytes of the buffer that are not in the stream stay. -/
def load (stream : List UInt8) : ℤ × QemudSerial :=
  let (need_header, stream) := stream_get_be32 stream
  let (overflow, stream) := stream_get_be32 stream
  let (in_size, stream) := stream_get_be32 stream
  let (in_channel, stream) := stream_get_be32 stream
  let (header, stream) := QemudSink.load stream
  let (payload, stream) := QemudSink.load stream
  let s : QemudSerial := ⟨need_header ≠ 0, overflow.toNat, in_size, in_channel, header, payload, s.data0⟩
  let (len, stream) := stream_get_be32 stream
  if len - 1 > MAX_SERIAL_PAYLOAD then (- EIO, s)
  else
    let bytes := (read len.toNat stream).1
    let s := { s with data0 := overwrite s.data0 0 bytes }
    if bytes.length ≠ len then (- EIO, s) else (0, s)

def can_read : ℕ :=
  if s.overflow > 0 then s.overflow
  else if s.need_header then s.header.needed
  else s.payload.needed

/-- The header is read if it is needed. -/
def readHeader (bytes : List UInt8) : Turn × List UInt8 × QemudSerial :=
  if s.need_header then
    let (full, header, data0, bytes) := s.header.fill s.data0 bytes
    if !full then (.leave, bytes, { s with header, data0 })
    else
      let in_size := hex2int ((data0.drop LENGTH_OFFSET).take LENGTH_SIZE)
      let in_channel := hex2int ((data0.drop CHANNEL_OFFSET).take CHANNEL_SIZE)
      let s := { s with in_size, in_channel, header := { header with used := 0 }, data0 }
      if in_size ≤ 0 ∨ in_channel < 0 then (.next, bytes, s)
      else if in_size > MAX_SERIAL_PAYLOAD then (.next, bytes, { s with overflow := in_size.toNat })
      else (.payload, bytes, { s with need_header := false, payload := .reset in_size.toNat })
  else (.payload, bytes, s)

/-- The payload is read; what is given to `recv_func`. -/
def readPayload (bytes : List UInt8) : Option (ℤ × List UInt8) × List UInt8 × QemudSerial :=
  let (full, payload, data0, bytes) := s.payload.fill s.data0 bytes
  if !full then (none, bytes, { s with payload, data0 })
  else
    let data0 := data0.set payload.size 0
    (some (s.in_channel, data0.take payload.size), bytes, { s with need_header := true, payload, data0 })

end QemudSerial

/-- The serial line, what it has taken from the guest and what it has given to `recv_func`. -/
structure SerialSession where
  serial : QemudSerial
  accepted : List UInt8
  delivered : List (ℤ × List UInt8)
deriving DecidableEq

namespace SerialSession

def init (data0 : List UInt8) : SerialSession := ⟨.init data0, [], []⟩

/-- The turns of the loop of `_qemud_serial_read`. -/
def readTurns : ℕ → List UInt8 → SerialSession → Option SerialSession
  | 0, _, _ => none
  | fuel + 1, bytes, session =>
    if bytes = [] then some session
    else if session.serial.overflow > 0 then
      readTurns fuel (bytes.drop (min session.serial.overflow bytes.length)) session
    else
      let (turn, bytes, serial) := session.serial.readHeader bytes
      match turn with
      | .leave => some { session with serial }
      | .next => readTurns fuel bytes { session with serial }
      | .payload =>
        let (packet, bytes, serial) := serial.readPayload bytes
        match packet with
        | none => some { session with serial }
        | some packet => readTurns fuel bytes { session with serial, delivered := session.delivered ++ [packet] }

/-- `_qemud_serial_read`. -/
def read (bytes : List UInt8) (session : SerialSession) : Option SerialSession :=
  readTurns (bytes.length + 1) bytes { session with accepted := session.accepted ++ bytes }

/-- The line is saved and loaded into a new one. -/
def reload (data0 : List UInt8) (session : SerialSession) : Option SerialSession :=
  match (QemudSerial.init data0).load session.serial.save with
  | (0, serial) => some { session with serial }
  | _ => none

end SerialSession

inductive SerialLabel where
  | read (bytes : List UInt8)
  | reload (data0 : List UInt8)
deriving DecidableEq

def serialStep : SerialLabel → SerialSession → Option SerialSession
  | .read bytes, session => session.read bytes
  | .reload data0, session => session.reload data0

end FdeEmugl.Qemud

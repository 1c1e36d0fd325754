import Mathlib.Algebra.Order.Group.Int
import FdeEmugl.Library.Overwrite
import FdeEmugl.Library.Runs
import FdeEmugl.Pipe.LengthPrefix

/-!
# Message pipes

The guest sends a request, with its length in front, and then receives the response in the same way. A
cursor runs through the length and the payload of the one and then through those of the other. A request
whose length is not positive is dropped. The state of the pipe can be saved and loaded at any byte.
-/

namespace FdeEmugl.MessagePipe

open Framing Overwrite Pipe Runs FdeEmugl.Stream

inductive GuestWaitingState where
  | SendMesgLength
  | SendMesgPayload
  | RecvMesgLength
  | RecvMesgPayload
deriving DecidableEq

/-- The `int32_t` that four bytes in memory are. -/
def toInt32 (bytes : List UInt8) : ℤ := ((getLe32 bytes).toNat : ℤ).bmod (2 ^ 32)

/-- The two lengths are variables of four bytes. The cursor counts from the start of the variable or buffer
that the state is about. -/
structure AndroidMessagePipe where
  mGuestWaitingState : GuestWaitingState
  mSendLengthBuffer : List UInt8
  mSendPayloadBuffer : List UInt8
  mRecvLengthBuffer : List UInt8
  mRecvPayloadBuffer : List UInt8
  m_expected : ℤ
  m_curPos : ℕ
deriving DecidableEq

namespace AndroidMessagePipe

variable (pipe : AndroidMessagePipe)

/-- What the cursor runs through. -/
def buffer : List UInt8 :=
  match pipe.mGuestWaitingState with
  | .SendMesgLength => pipe.mSendLengthBuffer
  | .SendMesgPayload => pipe.mSendPayloadBuffer
  | .RecvMesgLength => pipe.mRecvLengthBuffer
  | .RecvMesgPayload => pipe.mRecvPayloadBuffer

def setBuffer (bytes : List UInt8) : AndroidMessagePipe :=
  match pipe.mGuestWaitingState with
  | .SendMesgLength => { pipe with mSendLengthBuffer := bytes }
  | .SendMesgPayload => { pipe with mSendPayloadBuffer := bytes }
  | .RecvMesgLength => { pipe with mRecvLengthBuffer := bytes }
  | .RecvMesgPayload => { pipe with mRecvPayloadBuffer := bytes }

def readyForGuestToReceive : Bool :=
  (pipe.mGuestWaitingState = .RecvMesgLength ∨ pipe.mGuestWaitingState = .RecvMesgPayload) ∧ pipe.m_expected > 0

def readyForGuestToSend : Bool :=
  (pipe.mGuestWaitingState = .SendMesgLength ∨ pipe.mGuestWaitingState = .SendMesgPayload) ∧ pipe.m_expected > 0

def toCopy (bufsize : ℕ) : ℕ := min bufsize pipe.m_expected.toNat

/-- The cursor moves on. -/
def advance (count : ℕ) : AndroidMessagePipe :=
  { pipe with m_expected := pipe.m_expected - count, m_curPos := pipe.m_curPos + count }

/-- `copyData` from the buffer of the guest. -/
def copyFromBufdata (bufdata : List UInt8) : AndroidMessagePipe :=
  let data := bufdata.take (pipe.toCopy bufdata.length)
  (pipe.setBuffer (overwrite pipe.buffer pipe.m_curPos data)).advance (pipe.toCopy bufdata.length)

/-- `copyData` to the buffer of the guest. -/
def copyToBufdata (bufsize : ℕ) : List UInt8 × AndroidMessagePipe :=
  ((pipe.buffer.drop pipe.m_curPos).take (pipe.toCopy bufsize), pipe.advance (pipe.toCopy bufsize))

def resetToInitState : AndroidMessagePipe := { pipe with
    mRecvPayloadBuffer := []
    mSendPayloadBuffer := []
    mSendLengthBuffer := putLe32 0
    m_curPos := 0
    m_expected := 4
    mGuestWaitingState := .SendMesgLength }

/-- A new pipe. `mRecvLengthBuffer` is not initialized. -/
def new (mRecvLengthBuffer : List UInt8) : AndroidMessagePipe :=
  resetToInitState ⟨.SendMesgLength, [], [], mRecvLengthBuffer, [], 0, 0⟩

/-- `vector::resize`. -/
def resize (size : ℕ) (vector : List UInt8) : List UInt8 :=
  vector.take size ++ List.replicate (size - vector.length) 0

def stateToByte : GuestWaitingState → UInt8
  | .SendMesgLength => 0
  | .SendMesgPayload => 1
  | .RecvMesgLength => 2
  | .RecvMesgPayload => 3

/-- No other byte is ever saved. -/
def stateOfByte (byte : UInt8) : Option GuestWaitingState :=
  if byte = 0 then some .SendMesgLength
  else if byte = 1 then some .SendMesgPayload
  else if byte = 2 then some .RecvMesgLength
  else if byte = 3 then some .RecvMesgPayload
  else none

def onSave : List UInt8 := putBe32 (getLe32 pipe.mSendLengthBuffer) ++ saveBuffer pipe.mSendPayloadBuffer ++
    putBe32 (getLe32 pipe.mRecvLengthBuffer) ++ saveBuffer pipe.mRecvPayloadBuffer ++
    putByte (stateToByte pipe.mGuestWaitingState) ++ putBe32 (UInt32.ofNat (pipe.m_expected % 2 ^ 32).toNat) ++
    putBe32 (UInt32.ofNat pipe.m_curPos)

/-- The buffers are first given the sizes that the lengths say; a negative size is refused with an
exception. -/
def loadFromStream (stream : List UInt8) : Option AndroidMessagePipe :=
  let (mSendLengthBuffer, stream) := getBe32 stream
  let (_, mSendPayloadBuffer, stream) := loadBuffer stream
  let (mRecvLengthBuffer, stream) := getBe32 stream
  let (_, mRecvPayloadBuffer, stream) := loadBuffer stream
  let (state, stream) := getByte stream
  let (m_expected, stream) := getBe32 stream
  let (offset, _) := getBe32 stream
  if toInt32 (putLe32 mSendLengthBuffer) < 0 ∨ toInt32 (putLe32 mRecvLengthBuffer) < 0 then none
  else
    (stateOfByte state).map fun mGuestWaitingState ↦
      ⟨mGuestWaitingState, putLe32 mSendLengthBuffer, mSendPayloadBuffer, putLe32 mRecvLengthBuffer,
        mRecvPayloadBuffer, (m_expected.toNat : ℤ).bmod (2 ^ 32), offset.toNat⟩

end AndroidMessagePipe

/-- The pipe and what it has done: the bytes it took from the guest, the requests it gave to `m_cb`, the
bytes the guest got. -/
structure Session where
  pipe : AndroidMessagePipe
  accepted : List UInt8
  requests : List (List UInt8)
  delivered : List UInt8
deriving DecidableEq

namespace Session

def new (mRecvLengthBuffer : List UInt8) : Session := ⟨.new mRecvLengthBuffer, [], [], []⟩

variable (m_cb : List UInt8 → List UInt8 → List UInt8) (session : Session)

/-- `m_cb` gets the request and what the response has held before. -/
def switchGuestWaitingState : Session :=
  let pipe := session.pipe
  match pipe.mGuestWaitingState with
  | .SendMesgLength =>
    let m_expected := toInt32 pipe.mSendLengthBuffer
    if m_expected > 0 then
      { session with
        pipe := { pipe with
          m_expected
          mSendPayloadBuffer := AndroidMessagePipe.resize m_expected.toNat pipe.mSendPayloadBuffer
          m_curPos := 0
          mGuestWaitingState := .SendMesgPayload } }
    else { session with pipe := pipe.resetToInitState }
  | .SendMesgPayload =>
    let mRecvPayloadBuffer := m_cb pipe.mSendPayloadBuffer pipe.mRecvPayloadBuffer
    { session with
      pipe := { pipe with
        mRecvPayloadBuffer
        mSendPayloadBuffer := []
        mRecvLengthBuffer := putLe32 (UInt32.ofNat mRecvPayloadBuffer.length)
        m_curPos := 0
        m_expected := 4
        mGuestWaitingState := .RecvMesgLength }
      requests := session.requests ++ [pipe.mSendPayloadBuffer] }
  | .RecvMesgLength =>
    let m_expected := (pipe.mRecvPayloadBuffer.length : ℤ).bmod (2 ^ 32)
    if m_expected > 0 then
      { session with pipe := { pipe with m_expected, m_curPos := 0, mGuestWaitingState := .RecvMesgPayload } }
    else { session with pipe := pipe.resetToInitState }
  | .RecvMesgPayload => { session with pipe := pipe.resetToInitState }

def PIPE_ERROR_AGAIN : ℤ := -2

/-- The turns of the loop over one buffer. The loop is left when the response has been given, but not the
loop over the buffers. -/
def recvBuffer : ℕ → ℕ → Session → Option Session
  | 0, _, _ => none
  | fuel + 1, bufsize, session =>
    if bufsize = 0 then some session
    else
      let (bytes, pipe) := session.pipe.copyToBufdata bufsize
      let bufsize := bufsize - session.pipe.toCopy bufsize
      let session := { session with pipe, delivered := session.delivered ++ bytes }
      if pipe.m_expected = 0 then
        let session := session.switchGuestWaitingState m_cb
        if session.pipe.readyForGuestToSend then some session else recvBuffer fuel bufsize session
      else recvBuffer fuel bufsize session

def recvEach : List ℕ → Session → Option Session
  | [], session => some session
  | size :: sizes, session => (recvBuffer m_cb (size + 1) size session).bind (recvEach sizes)

/-- The sizes are those of the buffers. The result is an `int`. -/
def onGuestRecv (sizes : List ℕ) : Option (ℤ × Session) :=
  if session.pipe.readyForGuestToReceive then
    (recvEach m_cb sizes session).map fun after ↦
      (((after.delivered.length - session.delivered.length : ℕ) : ℤ).bmod (2 ^ 32), after)
  else some (PIPE_ERROR_AGAIN, session)

/-- The turns of the loop over one buffer; whether the function returns then. -/
def sendBuffer : ℕ → List UInt8 → Session → Option (Bool × Session)
  | 0, _, _ => none
  | fuel + 1, bufdata, session =>
    if bufdata = [] then some (false, session)
    else
      let count := session.pipe.toCopy bufdata.length
      let pipe := session.pipe.copyFromBufdata bufdata
      let session := { session with pipe, accepted := session.accepted ++ bufdata.take count }
      if pipe.m_expected = 0 then
        let session := session.switchGuestWaitingState m_cb
        if session.pipe.readyForGuestToReceive then some (true, session)
        else sendBuffer fuel (bufdata.drop count) session
      else sendBuffer fuel (bufdata.drop count) session

def sendEach : List (List UInt8) → Session → Option Session
  | [], session => some session
  | buffer :: buffers, session =>
    (sendBuffer m_cb (buffer.length + 1) buffer session).bind fun result ↦
      if result.1 then some result.2 else sendEach buffers result.2

def onGuestSend (buffers : List (List UInt8)) : Option (ℤ × Session) :=
  if session.pipe.readyForGuestToSend then
    (sendEach m_cb buffers session).map fun after ↦
      (((after.accepted.length - session.accepted.length : ℕ) : ℤ).bmod (2 ^ 32), after)
  else some (PIPE_ERROR_AGAIN, session)

/-- A snapshot is saved and loaded. -/
def reload : Option Session :=
  (AndroidMessagePipe.loadFromStream session.pipe.onSave).map fun pipe ↦ { session with pipe }

end Session

inductive Label where
  | onGuestSend (buffers : List (List UInt8))
  | onGuestRecv (sizes : List ℕ)
  | reload
deriving DecidableEq

def step (m_cb : List UInt8 → List UInt8 → List UInt8) : Label → Session → Option Session
  | .onGuestSend buffers, session => (session.onGuestSend m_cb buffers).map Prod.snd
  | .onGuestRecv sizes, session => (session.onGuestRecv m_cb sizes).map Prod.snd
  | .reload, session => session.reload

end FdeEmugl.MessagePipe

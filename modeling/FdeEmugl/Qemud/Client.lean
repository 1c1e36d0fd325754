import FdeEmugl.Library.Framing
import FdeEmugl.Library.Runs
import FdeEmugl.Qemud.Sink

/-!
# Clients of qemud

A client with framing gets frames of a length in four hexadecimal digits and a payload, in pieces of any
size, and gives the payloads to its service, which may disconnect and free the client then. The header of a
frame that is empty or malformed is not taken out of the sink.
-/

namespace FdeEmugl.Qemud

open Framing Runs

def FRAME_HEADER_SIZE : ℕ := 4

/-- What receiving is about. The buffer of the payload is allocated for each frame. -/
structure QemudClient where
  framing : Bool
  need_header : Bool
  header : QemudSink
  header0 : List UInt8
  payload : QemudSink
  payload_buff : List UInt8
deriving DecidableEq

namespace QemudClient

/-- `qemud_client_alloc` and `qemud_client_set_framing`. -/
def alloc (framing : Bool) : QemudClient :=
  ⟨framing, true, .reset FRAME_HEADER_SIZE, List.replicate FRAME_HEADER_SIZE 0, ⟨0, 0⟩, []⟩

variable (c : QemudClient)

/-- The header is read if it is needed. -/
def readHeader (msg : List UInt8) : Turn × List UInt8 × QemudClient :=
  if c.need_header then
    let (full, header, header0, msg) := c.header.fill c.header0 msg
    let c := { c with header, header0 }
    let frame_size := hex2int (header0.take FRAME_HEADER_SIZE)
    if !full then (.leave, msg, c)
    else if frame_size = 0 then (.next, msg, c)
    else if frame_size < 0 then (.next, msg, c)
    else
      (.payload, msg, { c with
        payload := .reset frame_size.toNat
        payload_buff := List.replicate (frame_size.toNat + 1) 0
        need_header := false
        header := { header with used := 0 } })
  else (.payload, msg, c)

/-- The payload is read; what is given to `clie_recv`. -/
def readPayload (msg : List UInt8) : Option (List UInt8) × List UInt8 × QemudClient :=
  let (full, payload, payload_buff, msg) := c.payload.fill c.payload_buff msg
  if !full then (none, msg, { c with payload, payload_buff })
  else
    let payload_buff := payload_buff.set payload.size 0
    (some (payload_buff.take payload.size), msg, { c with need_header := true, payload, payload_buff })

end QemudClient

/-- The client, the bytes that it was given and the messages that the service got. `usedFreed` says that a
field has been read after the client was freed. -/
structure ClientSession where
  client : QemudClient
  accepted : List UInt8
  delivered : List (List UInt8)
  freed : Bool
  usedFreed : Bool
deriving DecidableEq

namespace ClientSession

def alloc (framing : Bool) : ClientSession := ⟨.alloc framing, [], [], false, false⟩

variable (frees : List (List UInt8) → Bool)

/-- `frees` says whether the service disconnects the client, after all the messages that it has got. -/
def clie_recv (msg : List UInt8) (session : ClientSession) : ClientSession := { session with
    delivered := session.delivered ++ [msg]
    freed := frees (session.delivered ++ [msg]) }

/-- The turns of the loop of `qemud_client_recv`. The buffer of the payload is freed; the sink is reset if the
client is still allocated. -/
def recvTurns : ℕ → List UInt8 → ClientSession → Option ClientSession
  | 0, _, _ => none
  | fuel + 1, msg, session =>
    if msg = [] then some session
    else if session.freed then some { session with usedFreed := true }
    else
      let (turn, msg, client) := session.client.readHeader msg
      match turn with
      | .leave => some { session with client }
      | .next => recvTurns fuel msg { session with client }
      | .payload =>
        let (payload, msg, client) := client.readPayload msg
        match payload with
        | none => some { session with client }
        | some payload =>
          let session := clie_recv frees payload { session with client }
          if session.freed then recvTurns fuel msg session
          else
            recvTurns fuel msg
              { session with client := { session.client with payload := .reset 0, payload_buff := [] } }

/-- The message is one whole frame. -/
def isWholeFrame (msg : List UInt8) : Bool := hex2int (msg.take FRAME_HEADER_SIZE) ≥ 0 ∧
    (msg.length : ℤ) = hex2int (msg.take FRAME_HEADER_SIZE) + FRAME_HEADER_SIZE

def qemud_client_recv (fuel : ℕ) (msg : List UInt8) (session : ClientSession) : Option ClientSession :=
  let session := { session with accepted := session.accepted ++ msg }
  if !session.client.framing then some (clie_recv frees msg session)
  else if msg.length > FRAME_HEADER_SIZE ∧ session.client.need_header ∧ session.client.header.needed = 0 ∧
      isWholeFrame msg then some (clie_recv frees (msg.drop FRAME_HEADER_SIZE) session)
  else recvTurns frees fuel msg session

end ClientSession

/-- Nobody calls for a client that is gone. A call that takes more turns than it has bytes is shown never to
return. -/
def clientStep (frees : List (List UInt8) → Bool) (msg : List UInt8) (session : ClientSession) :
    Option ClientSession :=
  if session.freed then some session else session.qemud_client_recv frees (msg.length + 1) msg

end FdeEmugl.Qemud

import FdeEmugl.Qemud.Client
import FdeEmugl.Qemud.Serial

/-!
# Sending messages

A message for a client goes into packets on the serial line, or into a list of pieces from which the pipe of
the client is read. With framing the length of the message comes first. The pieces are put on the list one by
one, and the guest may read between them.
-/

namespace FdeEmugl.Qemud

open Runs

/-! ## The serial line -/

/-- The header of a packet. -/
def packetHeader (channel length : ℕ) : List UInt8 := int2hex CHANNEL_SIZE channel ++ int2hex LENGTH_SIZE length

/-- The turns of the loop of `qemud_serial_send`; what is written to the line. -/
def serialTurns (channel msglen : ℕ) (framing : Bool) (len : ℕ) (msg : List UInt8) : List UInt8 :=
  if len = 0 then []
  else
    let avail := min len MAX_SERIAL_PAYLOAD
    let header := packetHeader channel avail
    if framing then
      let frame := int2hex FRAME_HEADER_SIZE msglen
      let left := len - FRAME_HEADER_SIZE
      let count := avail - FRAME_HEADER_SIZE
      header ++ (frame ++ (msg.take count ++ serialTurns channel msglen false (left - count) (msg.drop count)))
    else header ++ (msg.take avail ++ serialTurns channel msglen false (len - avail) (msg.drop avail))
termination_by len
decreasing_by
  · simp only [FRAME_HEADER_SIZE] at *
    omega
  · simp only [MAX_SERIAL_PAYLOAD] at *
    omega

def qemud_serial_send (channel : ℤ) (framing : Bool) (msg : List UInt8) : List UInt8 :=
  if msg.length = 0 ∨ channel < 0 then []
  else
    serialTurns channel.toNat msg.length framing (if framing then msg.length + FRAME_HEADER_SIZE else msg.length) msg

/-! ## Pipes -/

/-- The turns of the loop of `_qemud_pipe_send`; the messages that are appended. -/
def pipeTurns (msglen : ℕ) (framing : Bool) (len : ℕ) (msg : List UInt8) : List (List UInt8) :=
  if len = 0 then []
  else
    let avail := min len MAX_SERIAL_PAYLOAD
    if framing then
      let frame_msg := int2hex FRAME_HEADER_SIZE msglen
      let left := len - FRAME_HEADER_SIZE
      let count := avail - FRAME_HEADER_SIZE
      frame_msg :: msg.take count :: pipeTurns msglen false (left - count) (msg.drop count)
    else msg.take avail :: pipeTurns msglen false (len - avail) (msg.drop avail)
termination_by len
decreasing_by
  · simp only [FRAME_HEADER_SIZE] at *
    omega
  · simp only [MAX_SERIAL_PAYLOAD] at *
    omega

def _qemud_pipe_send (framing : Bool) (msg : List UInt8) : List (List UInt8) :=
  if msg.length = 0 then []
  else pipeTurns msg.length framing (if framing then msg.length + FRAME_HEADER_SIZE else msg.length) msg

structure QemudPipeMessage where
  message : List UInt8
  offset : ℕ
deriving DecidableEq

def QemudPipeMessage.left (msg : QemudPipeMessage) : List UInt8 := msg.message.drop msg.offset

/-- The list of a pipe client. `last_msg` says whether there is a last message; if there is, it is the last
one of the list. -/
structure PipeClient where
  messages : List QemudPipeMessage
  last_msg : Bool
deriving DecidableEq

/-- A message is appended to the last one, or it becomes the list. -/
def _qemud_pipe_append_msg (client : PipeClient) (message : List UInt8) : PipeClient :=
  if client.last_msg then { client with messages := client.messages ++ [⟨message, 0⟩] }
  else ⟨[⟨message, 0⟩], true⟩

/-- The turns of the loop of `_qemudPipe_recvBuffers`: the bytes that are read, and what is left. -/
def recvBuffersTurns : ℕ → List ℕ → ℕ → List QemudPipeMessage → Option (List UInt8 × List QemudPipeMessage)
  | 0, _, _, _ => none
  | _ + 1, [], _, messages => some ([], messages)
  | _ + 1, _, _, [] => some ([], [])
  | fuel + 1, size :: sizes, off_in_buff, msg :: messages =>
    let to_copy := min (msg.message.length - msg.offset) (size - off_in_buff)
    let copied := msg.left.take to_copy
    let off_in_buff := off_in_buff + to_copy
    let msg := { msg with offset := msg.offset + to_copy }
    let messages := if msg.message.length = msg.offset then messages else msg :: messages
    (if off_in_buff = size then recvBuffersTurns fuel sizes 0 messages
      else recvBuffersTurns fuel (size :: sizes) off_in_buff messages).map fun rest ↦ (copied ++ rest.1, rest.2)

def PIPE_ERROR_AGAIN : ℤ := -2

/-- The result is an `int`. Every turn comes to the end of a buffer or of a message. -/
def _qemudPipe_recvBuffers (client : PipeClient) (sizes : List ℕ) : Option (ℤ × List UInt8 × PipeClient) :=
  if client.messages = [] then some (PIPE_ERROR_AGAIN, [], client)
  else
    (recvBuffersTurns (sizes.length + client.messages.length + 1) sizes 0 client.messages).map fun (bytes, messages) ↦
      ((bytes.length : ℤ).bmod (2 ^ 32), bytes, ⟨messages, if messages = [] then false else client.last_msg⟩)

/-- A pipe client, the service that sends to it and the guest that reads from it. `sending` are the messages
that the service is about to append, `sent` what it has sent. -/
structure PipeSession where
  client : PipeClient
  sending : List (List UInt8)
  sent : List (List UInt8)
  delivered : List UInt8
deriving DecidableEq

def PipeSession.new : PipeSession := ⟨⟨[], false⟩, [], [], []⟩

/-- The lock is held while a message is appended and during a whole read. -/
inductive PipeLabel where
  | send (msg : List UInt8)
  | append
  | recvBuffers (sizes : List ℕ)
deriving DecidableEq

def pipeStep (framing : Bool) : PipeLabel → PipeSession → Option PipeSession
  | .send msg, session =>
    if session.sending = [] then
      some { session with sending := _qemud_pipe_send framing msg, sent := session.sent ++ [msg] }
    else none
  | .append, session =>
    match session.sending with
    | [] => none
    | message :: sending =>
      some { session with client := _qemud_pipe_append_msg session.client message, sending }
  | .recvBuffers sizes, session =>
    (_qemudPipe_recvBuffers session.client sizes).map fun (_, bytes, client) ↦
      { session with client, delivered := session.delivered ++ bytes }

end FdeEmugl.Qemud

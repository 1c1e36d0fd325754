import FdeEmugl.Render.Decoder
import FdeEmugl.Render.ReadBuffer

/-!
# RenderThread: one stream, three decoders

`RenderThread::main` fills its buffer and then lets the three decoders take packets off
its front, in turn, for as long as one of them makes progress. A decoder that comes to a
header with a length below 8 returns -1 for the whole call: the packets it has dispatched
in that call stay in the buffer. If a decoder before it made progress in the same
pass, the loop goes round once more and dispatches them again.

`owner` gives each op code to at most one decoder. A packet is identified by its offset
in the stream of the guest.
-/

namespace FdeEmugl.Render

structure Decoding where
  readBuf : ReadBuffer
  /-- How many bytes of the stream have been consumed. -/
  consumed : ℕ
  log : List Dispatch
  progress : Bool
  packetLen_error : Bool
deriving Repr, DecidableEq

section Loops

variable (owner : UInt32 → Option Decoder)

def owns (decoder : Decoder) (opcode : UInt32) : Bool := owner opcode = some decoder

/-- One decoder's turn in the loop. -/
def decodeWith (decoder : Decoder) (s : Decoding) : Decoding :=
  let (last, dispatched) := decode (owns owner decoder) s.readBuf.data
  let s := { s with log := s.log ++ dispatched.map (Dispatch.shift s.consumed) }
  if last > 0 then
    { s with
      progress := true
      readBuf := s.readBuf.consume last.toInt.toNat
      consumed := s.consumed + last.toInt.toNat }
  else if last < 0 then { s with packetLen_error := true }
  else s

def pass (s : Decoding) : Decoding :=
  decodeWith owner .renderControl (decodeWith owner .gles2 (decodeWith owner .gles1 { s with progress := false }))

/-- `do … while (progress)`, with fuel for the number of passes. -/
def passes : ℕ → Decoding → Decoding
  | 0, s => s
  | fuel + 1, s => if (pass owner s).progress then passes fuel (pass owner s) else pass owner s

variable (s : Decoding) (stream : List (List UInt8))

@[simp] theorem passes_zero : passes owner 0 s = s := rfl

theorem passes_succ (fuel : ℕ) (s : Decoding) : passes owner (fuel + 1) s =
      if (pass owner s).progress then passes owner fuel (pass owner s) else pass owner s := rfl

-- the loops are used through these equations and never unfolded into the decoders
attribute [irreducible] pass passes

/-- A pass with progress takes a byte off the buffer, so this is fuel enough. -/
def decodeAll (s : Decoding) : Decoding := passes owner (s.readBuf.validData + 1) s

/-! ## The outer loop -/

structure Thread where
  readBuf : ReadBuffer
  /-- What `m_stream` has not delivered yet. -/
  stream : List (List UInt8)
  consumed : ℕ
  log : List Dispatch

def kStreamBufferSize : ℕ := 128 * 1024

def Thread.new (stream : List (List UInt8)) : Thread where
  readBuf := .new kStreamBufferSize
  stream := stream
  consumed := 0
  log := []

variable (malloc : ℕ → Bool)

/-- The part of a turn before the decoders: `none` when the thread leaves the loop, because the
stream ended or because it crashed on a packet of size 0. -/
def fill (t : Thread) : Option Thread :=
  let packetSize := if t.readBuf.validData ≥ 8 then packetLen t.readBuf.data else 8
  if packetSize = 0 then none
  else if packetSize > toInt t.readBuf.validData then
    let (stat, readBuf, stream) := t.readBuf.getData malloc packetSize t.stream
    if stat ≤ 0 then none else some { t with readBuf := readBuf, stream := stream }
  else some t

/-- The state in which the decoders' part of a turn begins. -/
def Thread.undecoded (t : Thread) : Decoding := ⟨t.readBuf, t.consumed, t.log, false, false⟩

/-- The decoders' part of a turn. -/
def Thread.decoding (t : Thread) : Decoding := decodeAll owner t.undecoded

/-- The thread after the decoders' part. -/
def Decoding.toThread (s : Decoding) (stream : List (List UInt8)) : Thread := ⟨s.readBuf, stream, s.consumed, s.log⟩

@[simp] theorem data_toThread : (s.toThread stream).readBuf.data = s.readBuf.data := rfl

@[simp] theorem stream_toThread : (s.toThread stream).stream = stream := rfl

@[simp] theorem consumed_toThread : (s.toThread stream).consumed = s.consumed := rfl

@[simp] theorem log_toThread : (s.toThread stream).log = s.log := rfl

/-- The thread after at most `turns` turns of its loop. -/
def mainLoop : ℕ → Thread → Thread
  | 0, t => t
  | turns + 1, t =>
    match fill malloc t with
    | none => t
    | some filled =>
      if (filled.decoding owner).packetLen_error then
        (filled.decoding owner).toThread filled.stream
      else mainLoop turns ((filled.decoding owner).toThread filled.stream)

/-- The buffers that the decoders were given in these turns. -/
def handed : ℕ → Thread → List (List UInt8)
  | 0, _ => []
  | turns + 1, t =>
    match fill malloc t with
    | none => []
    | some filled =>
      filled.readBuf.data ::
        if (filled.decoding owner).packetLen_error then []
        else handed turns ((filled.decoding owner).toThread filled.stream)

end Loops

end FdeEmugl.Render

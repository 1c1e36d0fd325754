import FdeEmugl.Base.RingBufferSession
import FdeEmugl.Render.Decoder

/-!
# RingStream: reading what the guest sends

The guest sends in one of two rings. In `to_host` it publishes descriptors of transfers whose
bytes lie in a buffer beside the ring, in `to_host_large_xfer` the bytes themselves. It starts
a transfer in one ring only when the other one is empty, and it leaves the bytes of a published
transfer alone until they have been read. `readRaw` runs in the host; the guest may move between
any two of its accesses to shared memory. A transfer that does not fit into the buffer of the
caller goes through `mReadBuffer`.
-/

namespace FdeEmugl.RingStream

open Cyclic FdeEmugl.Ring Runs
open List (append_assoc append_nil flatMap_cons length_append length_nil)
open Option (map_eq_some_iff)

/-- `struct asg_type1_xfer`. -/
structure Xfer where
  offset : UInt32
  size : UInt32
deriving Repr, DecidableEq

namespace Xfer

/-- As it lies in the ring, in the byte order of the machine. -/
def bytes (x : Xfer) : List UInt8 := (Stream.putBe32 x.offset).reverse ++ (Stream.putBe32 x.size).reverse

def ofBytes (bytes : List UInt8) : Xfer := ⟨Render.word bytes 0, Render.word bytes 4⟩

/-- The bytes of the transfer. -/
def data (buffer : ℕ → UInt8) (x : Xfer) : List UInt8 := segment buffer x.offset.toNat x.size.toNat

end Xfer

def sizeofXfer : UInt32 := 8

/-- The fields of the stream that `readRaw` uses. -/
structure ReadState where
  mReadBuffer : List UInt8
  mReadBufferLeft : ℕ
  mType1Xfers : List UInt8
  mShouldExit : Bool

/-- Where the host is in `readRaw`. -/
inductive Host where
  | idle
  /-- The head of the loop, with the bytes that are in the buffer of the caller. -/
  | loop (wanted : ℕ) (out : List UInt8)
  /-- `ringAvailable` has been loaded. -/
  | loaded (wanted : ℕ) (ringAvailable : UInt32)
  | type1Read (wanted : ℕ) (available : UInt32)
  /-- The descriptors have been copied; this is the first of them. -/
  | xfer (wanted : ℕ) (x : Xfer)
  /-- The transfer is in `mReadBuffer`, its descriptor still in the ring. -/
  | saved (wanted : ℕ)
  /-- The transfer is in the buffer of the caller, its descriptor still in the ring. -/
  | copied (wanted : ℕ) (bytes : List UInt8)
  /-- The loop of `ring_buffer_read_fully_with_abort`. -/
  | type3Read (wanted : ℕ) (actuallyRead candidateStep : UInt32) (out : List UInt8)
  /-- Inside one of its read steps. -/
  | readStep (wanted : ℕ) (actuallyRead candidateStep : UInt32) (out : List UInt8)
  | crashed

structure System where
  toHost : Session
  large : Session
  buffer : ℕ → UInt8
  transferMode : UInt32
  inError : UInt32
  stream : ReadState
  host : Host
  /-- What the buffer of the caller held before the call. -/
  dst : ℕ → UInt8
  /-- The published descriptors that are still in the ring. -/
  pending : List Xfer
  /-- The bytes of all transfers, in the order of their publication. -/
  transfers : List UInt8
  /-- The size wanted and the bytes returned by each call that has returned. -/
  calls : List (ℕ × List UInt8)

/-- Both rings have been initialized. -/
def System.new (toHostBuf largeBuf buffer : ℕ → UInt8) : System where
  toHost := .start 0 toHostBuf
  large := .start 0 largeBuf
  buffer := buffer
  transferMode := 1
  inError := 0
  stream := ⟨[], 0, [], false⟩
  host := .idle
  dst := fun _ ↦ 0
  pending := []
  transfers := []
  calls := []

namespace System

/-- The bytes that all calls have returned. -/
def returned (s : System) : List UInt8 := s.calls.flatMap Prod.snd

/-- `ring_buffer_advance_read(to_host, sizeof(asg_type1_xfer), 1)`. -/
def advanceToHost (s : System) : System := { s with
    toHost := { s.toHost with
        ring := (ringBufferAdvanceRead s.toHost.ring sizeofXfer 1).2
        received :=
          if ringBufferCanRead s.toHost.ring sizeofXfer then
            s.toHost.received ++ copyOut ringBufferSize ringBufferMask s.toHost.ring s.toHost.buf sizeofXfer
          else s.toHost.received }
    pending := s.pending.tail }

/-- `*inout_len = count` and the return. -/
def returns (wanted : ℕ) (out : List UInt8) (s : System) : System :=
  { s with host := .idle, calls := s.calls ++ [(wanted, out)] }

/-- One turn of the loop of `readRaw` up to its first access to shared memory. -/
def loopStep (wanted : ℕ) (out : List UInt8) (s : System) : System :=
  if out.length < wanted then
    if s.stream.mReadBufferLeft ≠ 0 then
      let avail := min (wanted - out.length) s.stream.mReadBufferLeft
      let src := s.stream.mReadBuffer.drop (s.stream.mReadBuffer.length - s.stream.mReadBufferLeft)
      { s with
        stream := { s.stream with mReadBufferLeft := s.stream.mReadBufferLeft - avail }
        host := .loop wanted (out ++ src.take avail) }
    else
      let s := { s with stream := { s.stream with mReadBuffer := [] } }
      if 0 < out.length then s.returns wanted out
      else if s.stream.mShouldExit then { s with host := .idle }
      else { s with host := .loaded wanted (ringBufferAvailableRead s.toHost.ring none) }
  else s.returns wanted out

/-- `exit` is what `onUnavailableRead` answers, if it is asked. -/
def loadedStep (v : RingBufferView) (exit : Bool) (wanted : ℕ) (ringAvailable : UInt32) (s : System) : System :=
  let ringLargeXferAvailable := ringBufferAvailableRead s.large.ring (some v)
  if ringAvailable ≠ 0 then
    if s.transferMode = 1 then { s with host := .type1Read wanted ringAvailable }
    else { s with host := .crashed }
  else if ringLargeXferAvailable ≠ 0 then
    let maxCanRead := UInt32.ofNat wanted
    let actuallyRead := min ringLargeXferAvailable maxCanRead
    { s with host := .type3Read wanted actuallyRead (getStepSize (some v) actuallyRead) [] }
  else
    { s with
      stream := { s.stream with mShouldExit := s.stream.mShouldExit || exit }
      host := .loop wanted [] }

def type1Step (wanted : ℕ) (available : UInt32) (s : System) : System :=
  let xferTotal := available / sizeofXfer
  let copied := ringBufferCopyContents s.toHost.ring s.toHost.buf none (xferTotal * sizeofXfer)
  let xfers := match copied with
    | some bytes => bytes ++ s.stream.mType1Xfers.drop bytes.length
    | none => s.stream.mType1Xfers
  { s with
    stream := { s.stream with mType1Xfers := xfers }
    host := if xferTotal = 0 then .loop wanted [] else .xfer wanted (Xfer.ofBytes xfers) }

def xferStep (wanted : ℕ) (x : Xfer) (s : System) : System :=
  if x.size.toNat > wanted then
    { s with
      stream := { s.stream with mReadBuffer := x.data s.buffer, mReadBufferLeft := x.size.toNat }
      host := .saved wanted }
  else { s with host := .copied wanted (x.data s.buffer) }

/-- The end of `type3Read`. After an abort the bytes that were not read are those that the buffer of
the caller held before. -/
def type3Done (wanted : ℕ) (actuallyRead : UInt32) (out : List UInt8) (s : System) : System := { s with
    host := .loop wanted (out ++ segment s.dst out.length (actuallyRead.toNat - out.length)) }

def type3Step (v : RingBufferView) (wanted : ℕ) (actuallyRead candidateStep : UInt32)
    (out : List UInt8) (s : System) : Option System :=
  if out.length < actuallyRead.toNat then
    let candidateStep :=
      if actuallyRead.toNat - out.length < candidateStep.toNat then
        UInt32.ofNat (actuallyRead.toNat - out.length)
      else candidateStep
    (s.large.step (some v) (.checkRead candidateStep)).map fun large ↦
      -- `ring_buffer_wait_read` goes round while the check fails
      if sessionCanRead s.large.ring (some v) candidateStep then
        { s with large := large, host := .readStep wanted actuallyRead candidateStep out }
      else { s with host := .type3Read wanted actuallyRead candidateStep out }
  else some (s.type3Done wanted actuallyRead out)

/-- The copy and the publication of one read step, then the test of `in_error`. -/
def readStep (v : RingBufferView) (wanted : ℕ) (actuallyRead candidateStep : UInt32)
    (out : List UInt8) (s : System) : Option System :=
  match s.large.consumer with
  | .checked _ => (s.large.step (some v) .copyOut).map fun large ↦ { s with large := large }
  | .copied _ bytes =>
    (s.large.step (some v) .publishRead).map fun large ↦
      if s.inError = 1 then { s with large := large }.type3Done wanted actuallyRead (out ++ bytes)
      else { s with large := large, host := .type3Read wanted actuallyRead candidateStep (out ++ bytes) }
  | .idle => none

end System

inductive Event where
  /-- The guest writes a byte into the buffer beside the ring. -/
  | store (index : ℕ) (value : UInt8)
  /-- The guest publishes a descriptor in three steps. -/
  | announce (x : Xfer)
  | toHostCopy
  | toHostPublish
  /-- The guest writes a chunk into the large ring. -/
  | chunk (data : ℕ → UInt8) (size : UInt32)
  | largeCopy
  | largePublish
  | readRaw (wanted : ℕ) (dst : ℕ → UInt8)
  | host (exit : Bool)

def hostStep (v : RingBufferView) (exit : Bool) (s : System) : Option System :=
  match s.host with
  | .idle => none
  | .loop wanted out => some (s.loopStep wanted out)
  | .loaded wanted ringAvailable => some (s.loadedStep v exit wanted ringAvailable)
  | .type1Read wanted available => some (s.type1Step wanted available)
  | .xfer wanted x => some (s.xferStep wanted x)
  | .saved wanted => some { s.advanceToHost with host := .loop wanted [] }
  | .copied wanted bytes => some { s.advanceToHost with host := .loop wanted bytes }
  | .type3Read wanted actuallyRead candidateStep out =>
    s.type3Step v wanted actuallyRead candidateStep out
  | .readStep wanted actuallyRead candidateStep out =>
    s.readStep v wanted actuallyRead candidateStep out
  | .crashed => none

/-- A descriptor as the data of a write step. -/
def descriptor (x : Xfer) : ℕ → UInt8 := fun offset ↦ x.bytes.getD offset 0

def guestStep (v : RingBufferView) (s : System) : Event → Option System
  | .store index value =>
    if ∀ x ∈ s.pending, ¬ (x.offset.toNat ≤ index ∧ index < x.offset.toNat + x.size.toNat) then
      some { s with buffer := Function.update s.buffer index value }
    else none
  | .announce x =>
    match s.large.producer with
    | .idle =>
      if ringBufferAvailableRead s.large.ring (some v) = 0 then
        (s.toHost.step none (.checkWrite (descriptor x) sizeofXfer)).map fun toHost ↦
          { s with toHost := toHost, transferMode := 1 }
      else none
    | _ => none
  | .toHostCopy => (s.toHost.step none .copyIn).map fun toHost ↦ { s with toHost := toHost }
  | .toHostPublish =>
    match s.toHost.producer with
    | .copied data size =>
      let x := Xfer.ofBytes (bytesOf data size)
      (s.toHost.step none .publishWrite).map fun toHost ↦
        { s with
          toHost := toHost
          pending := s.pending ++ [x]
          transfers := s.transfers ++ x.data s.buffer }
    | _ => none
  | .chunk data size =>
    match s.toHost.producer with
    | .idle =>
      if ringBufferAvailableRead s.toHost.ring none = 0 then
        (s.large.step (some v) (.checkWrite data size)).map fun large ↦
          { s with large := large, transferMode := 3 }
      else none
    | _ => none
  | .largeCopy => (s.large.step (some v) .copyIn).map fun large ↦ { s with large := large }
  | .largePublish =>
    match s.large.producer with
    | .copied data size =>
      (s.large.step (some v) .publishWrite).map fun large ↦
        { s with large := large, transfers := s.transfers ++ bytesOf data size }
    | _ => none
  | _ => none

def step (v : RingBufferView) : Event → System → Option System
  | .readRaw wanted dst, s =>
    match s.host with
    | .idle => some { s with host := .loop wanted [], dst := dst }
    | _ => none
  | .host exit, s => hostStep v exit s
  | event, s => guestStep v s event

/-! ## Descriptors -/

variable (x : Xfer)

theorem Xfer.length_bytes : x.bytes.length = 8 := rfl

theorem Xfer.ofBytes_bytes (rest : List UInt8) : Xfer.ofBytes (x.bytes ++ rest) = x := by
  have hoffset := Stream.joinBe32_shifts x.offset
  have hsize := Stream.joinBe32_shifts x.size
  simp [Xfer.ofBytes, Xfer.bytes, Render.word, Stream.putBe32, hoffset, hsize]

theorem bytesOf_descriptor : bytesOf (descriptor x) sizeofXfer = x.bytes := by
  simp [bytesOf, descriptor, sizeofXfer, List.range_succ, Xfer.bytes, Stream.putBe32]

/-- Descriptors do not cross the end of the ring, and the room that the source measures there is a
whole number of them. So the first one is copied right, wherever the others come from. -/
theorem copyContents_first {r : RingBuffer} (buf : ℕ → UInt8) {wanted : UInt32}
    (hread : r.readPos.toNat % 8 = 0) (hwrite : r.writePos.toNat % 8 = 0) (hwanted : 8 ≤ wanted.toNat)
    (havailable : wanted ≤ ringBufferAvailableRead r none) :
    ∃ rest, ringBufferCopyContents r buf none wanted =
      some (window staticView.size.toNat buf r.readPos.toNat 8 ++ rest) := by
  have hpos : (getRingPos r.readPos).toNat = r.readPos.toNat % 2048 := staticView.toNat_and_mask r.readPos
  have hend : (ringBufferSize - getRingPos r.writePos).toNat = 2048 - r.writePos.toNat % 2048 :=
    staticView.toNat_availableAtEnd r.writePos
  have hlt : r.writePos.toNat % 2048 < 2048 := Nat.mod_lt _ (by decide)
  have hfirst : segment buf (getRingPos r.readPos).toNat 8 = window staticView.size.toNat buf r.readPos.toNat 8 := by
    rw [hpos]
    apply segment_eq_window
    show 8 ≤ 2048 - r.readPos.toNat % 2048
    omega
  have hsplit {count : ℕ} (hcount : 8 ≤ count) : ∃ rest, segment buf (getRingPos r.readPos).toNat count =
        window staticView.size.toNat buf r.readPos.toNat 8 ++ rest := by
    obtain ⟨more, rfl⟩ := Nat.exists_eq_add_of_le hcount
    rw [segment_add, hfirst]
    exact ⟨_, rfl⟩
  have hnot : ¬ ringBufferAvailableRead r none < wanted := UInt32.not_lt.mpr havailable
  simp only [ringBufferCopyContents, if_neg hnot]
  split
  · obtain ⟨rest, hrest⟩ := hsplit (show 8 ≤ (ringBufferSize - getRingPos r.writePos).toNat by omega)
    rw [hrest, append_assoc]
    exact ⟨_, rfl⟩
  · obtain ⟨rest, hrest⟩ := hsplit hwanted
    rw [hrest]
    exact ⟨_, rfl⟩

/-! ## Where every byte is -/

/-- What has been written to a ring and not been read. -/
def unread (s : Session) : List UInt8 := s.written.drop s.received.length

theorem length_unread (s : Session) : (unread s).length = s.written.length - s.received.length := List.length_drop

theorem toNat_availableRead {v : Option RingBufferView} {start : UInt32} {s : Session}
    (h : s.Invariant (viewOf v) start) :
    (ringBufferAvailableRead s.ring v).toNat = (unread s).length := by
  rw [ringBufferAvailableRead_eq, h.position.filled (viewOf v) h.received_le h.written_lt, length_unread]

namespace System

/-- What is left in `mReadBuffer`. -/
def leftBytes (s : System) : List UInt8 :=
  s.stream.mReadBuffer.drop (s.stream.mReadBuffer.length - s.stream.mReadBufferLeft)

/-- The bytes in the buffer of the caller. -/
def inHand (s : System) : List UInt8 :=
  match s.host with
  | .loop _ out => out
  | .type3Read _ _ _ out => out
  | .readStep _ _ _ out => out
  | _ => []

/-- What `mReadBuffer` carries over. While the descriptor is still in the ring the bytes count as
part of the ring. -/
def carried (s : System) : List UInt8 :=
  match s.host with
  | .saved _ => []
  | _ => s.leftBytes

/-- `available` bytes of descriptors are in the ring. -/
def Announced (s : System) (available : UInt32) : Prop :=
  8 ≤ available.toNat ∧ 8 ∣ available.toNat ∧ available.toNat ≤ 8 * s.pending.length

/-- What the host relies on at each point of `readRaw`. -/
def HostReady (s : System) : Host → Prop
  | .idle => s.large.consumer = .idle
  | .loop wanted out => s.large.consumer = .idle ∧ out.length ≤ wanted
  | .loaded _ ringAvailable =>
    s.large.consumer = .idle ∧ s.stream.mReadBufferLeft = 0 ∧ (ringAvailable ≠ 0 → s.Announced ringAvailable)
  | .type1Read _ available =>
    s.large.consumer = .idle ∧ s.stream.mReadBufferLeft = 0 ∧ s.Announced available
  | .xfer _ x =>
    s.large.consumer = .idle ∧ s.stream.mReadBufferLeft = 0 ∧ ∃ rest, s.pending = x :: rest
  | .saved _ =>
    s.large.consumer = .idle ∧ ∃ x rest, s.pending = x :: rest ∧ s.leftBytes = x.data s.buffer
  | .copied wanted bytes =>
    s.large.consumer = .idle ∧ s.stream.mReadBufferLeft = 0 ∧ bytes.length ≤ wanted ∧
      ∃ x rest, s.pending = x :: rest ∧ bytes = x.data s.buffer
  | .type3Read wanted actuallyRead _ out =>
    s.large.consumer = .idle ∧ s.stream.mReadBufferLeft = 0 ∧ actuallyRead.toNat ≤ wanted ∧
      out.length ≤ actuallyRead.toNat ∧ actuallyRead.toNat ≤ out.length + (unread s.large).length
  | .readStep wanted actuallyRead candidateStep out =>
    (s.large.consumer = .checked candidateStep ∨ ∃ bytes, s.large.consumer = .copied candidateStep bytes) ∧
      s.stream.mReadBufferLeft = 0 ∧ actuallyRead.toNat ≤ wanted ∧
      out.length + candidateStep.toNat ≤ actuallyRead.toNat ∧
      actuallyRead.toNat ≤ out.length + (unread s.large).length
  | .crashed => False

/-- The guest uses the ring of the descriptors. -/
def ToHostActive (s : System) : Prop := s.pending ≠ [] ∨ s.toHost.producer ≠ .idle

end System

structure Consistent (v : RingBufferView) (s : System) : Prop where
  toHost : s.toHost.Invariant staticView 0
  large : s.large.Invariant v 0
  consumer : s.toHost.consumer = .idle
  aligned : s.toHost.received.length % 8 = 0
  descriptors : unread s.toHost = s.pending.flatMap Xfer.bytes
  announced : ∀ data size, s.toHost.producer = .checked data size ∨ s.toHost.producer = .copied data size →
      size = sizeofXfer ∧ ∃ x, data = descriptor x
  exclusive : s.ToHostActive → unread s.large = [] ∧ s.large.producer = .idle
  mode : s.ToHostActive → s.transferMode = 1
  noError : s.inError = 0
  left_le : s.stream.mReadBufferLeft ≤ s.stream.mReadBuffer.length
  host : s.HostReady s.host
  account : s.transfers = s.returned ++ (s.inHand ++ (s.carried ++
    (s.pending.flatMap (Xfer.data s.buffer) ++ unread s.large)))
  bounded : ∀ call ∈ s.calls, call.2.length ≤ call.1

theorem consistent_new (v : RingBufferView) (toHostBuf largeBuf buffer : ℕ → UInt8) :
    Consistent v (System.new toHostBuf largeBuf buffer) where
  toHost := Session.Invariant.of_start staticView 0 toHostBuf
  large := Session.Invariant.of_start v 0 largeBuf
  consumer := rfl
  aligned := rfl
  descriptors := rfl
  announced := by
    rintro data size (h | h)
    · cases h
    · cases h
  exclusive _ := ⟨rfl, rfl⟩
  mode _ := rfl
  noError := rfl
  left_le := le_rfl
  host := rfl
  account := rfl
  bounded := nofun

section Guest

variable {v : RingBufferView} {s next : System}

variable {w : Option RingBufferView} {session after : Session} {data : ℕ → UInt8} {size : UInt32}
  {toHost large : Session}

theorem length_descriptors (pending : List Xfer) : (pending.flatMap Xfer.bytes).length = 8 * pending.length := by
  induction pending with
  | nil => rfl
  | cons x pending ih =>
    rw [flatMap_cons, length_append, ih, Xfer.length_bytes, List.length_cons]
    omega

/-- The guest only adds to the rings, and leaves the published bytes alone. -/
theorem System.HostReady.mono {host : Host} (h : s.HostReady host) (hstream : next.stream = s.stream)
    (hconsumer : next.large.consumer = s.large.consumer) {added : List Xfer}
    (hpending : next.pending = s.pending ++ added)
    (hdata : ∀ x ∈ s.pending, x.data next.buffer = x.data s.buffer)
    (hunread : (unread s.large).length ≤ (unread next.large).length) : next.HostReady host := by
  have hannounced {available : UInt32} (ha : s.Announced available) : next.Announced available := by
    refine ⟨ha.1, ha.2.1, ha.2.2.trans ?_⟩
    rw [hpending, length_append]
    omega
  cases host with
  | idle => exact hconsumer.trans h
  | loop wanted out => exact ⟨hconsumer.trans h.1, h.2⟩
  | loaded wanted ringAvailable =>
    exact ⟨hconsumer.trans h.1, hstream ▸ h.2.1, fun hne ↦ hannounced (h.2.2 hne)⟩
  | type1Read wanted available => exact ⟨hconsumer.trans h.1, hstream ▸ h.2.1, hannounced h.2.2⟩
  | xfer wanted x =>
    obtain ⟨hidle, hleft, rest, hrest⟩ := h
    exact ⟨hconsumer.trans hidle, hstream ▸ hleft, rest ++ added, by rw [hpending, hrest]; rfl⟩
  | saved wanted =>
    obtain ⟨hidle, x, rest, hrest, hleft⟩ := h
    refine ⟨hconsumer.trans hidle, x, rest ++ added, by rw [hpending, hrest]; rfl, ?_⟩
    rw [hdata x (hrest ▸ List.mem_cons_self), ← hleft, leftBytes, leftBytes, hstream]
  | copied wanted bytes =>
    obtain ⟨hidle, hleft, hlength, x, rest, hrest, hbytes⟩ := h
    refine ⟨hconsumer.trans hidle, hstream ▸ hleft, hlength, x, rest ++ added, by rw [hpending, hrest]; rfl, ?_⟩
    rw [hdata x (hrest ▸ List.mem_cons_self), hbytes]
  | type3Read wanted actuallyRead candidateStep out =>
    obtain ⟨hidle, hleft, hwanted, hout, hmore⟩ := h
    exact ⟨hconsumer.trans hidle, hstream ▸ hleft, hwanted, hout, by omega⟩
  | readStep wanted actuallyRead candidateStep out =>
    obtain ⟨hphase, hleft, hwanted, hout, hmore⟩ := h
    exact ⟨hconsumer ▸ hphase, hstream ▸ hleft, hwanted, hout, by omega⟩
  | crashed => exact h

theorem checkWrite_cases (h : session.step w (.checkWrite data size) = some after) :
    session.producer = .idle ∧ (after = session ∨ after = { session with producer := .checked data size }) := by
  cases hproducer : session.producer with
  | idle =>
    simp only [Session.step, hproducer, Option.some.injEq] at h
    refine ⟨rfl, ?_⟩
    split at h
    · exact .inr h.symm
    · exact .inl h.symm
  | checked => simp [Session.step, hproducer] at h
  | copied => simp [Session.step, hproducer] at h

theorem copyIn_cases (h : session.step w .copyIn = some after) :
    ∃ data size buf, session.producer = .checked data size ∧
      after = { session with buf := buf, producer := .copied data size } := by
  cases hproducer : session.producer with
  | idle => simp [Session.step, hproducer] at h
  | checked data size =>
    simp only [Session.step, hproducer, Option.some.injEq] at h
    exact ⟨data, size, _, rfl, h.symm⟩
  | copied => simp [Session.step, hproducer] at h

theorem publishWrite_eq (hproducer : session.producer = .copied data size)
    (h : session.step w .publishWrite = some after) :
    after = { session with
      ring := { session.ring with writePos := session.ring.writePos + size }
      producer := .idle
      written := session.written ++ bytesOf data size } := by
  simp only [Session.step, hproducer, Option.some.injEq] at h
  exact h.symm

theorem unread_append (h : session.received.length ≤ session.written.length) (bytes : List UInt8) :
    (session.written ++ bytes).drop session.received.length = unread session ++ bytes := by
  rw [List.drop_append_of_le_length h]
  rfl

theorem Consistent.store (h : Consistent v s) {index : ℕ} (value : UInt8)
    (hfree : ∀ x ∈ s.pending, ¬ (x.offset.toNat ≤ index ∧ index < x.offset.toNat + x.size.toNat)) :
    Consistent v { s with buffer := Function.update s.buffer index value } := by
  have hdata : ∀ x ∈ s.pending, x.data (Function.update s.buffer index value) = x.data s.buffer :=
    fun x hx ↦ segment_update s.buffer value (hfree x hx)
  refine { h with host := ?_, account := ?_ }
  · exact h.host.mono rfl rfl (append_nil _).symm hdata le_rfl
  · have hflat : s.pending.flatMap (Xfer.data (Function.update s.buffer index value)) =
        s.pending.flatMap (Xfer.data s.buffer) := List.flatMap_congr hdata
    show s.transfers = s.returned ++ (s.inHand ++ (s.carried ++
      (s.pending.flatMap (Xfer.data (Function.update s.buffer index value)) ++ unread s.large)))
    rw [hflat]
    exact h.account

/-- A step of the guest that publishes nothing. -/
theorem Consistent.quiet (h : Consistent v s) {mode : UInt32} (htoHost : toHost.Invariant staticView 0)
    (hlarge : large.Invariant v 0) (hconsumer : toHost.consumer = s.toHost.consumer)
    (hconsumer' : large.consumer = s.large.consumer)
    (hwritten : toHost.written = s.toHost.written ∧ toHost.received = s.toHost.received)
    (hwritten' : large.written = s.large.written ∧ large.received = s.large.received)
    (hannounced : ∀ data size, toHost.producer = .checked data size ∨ toHost.producer = .copied data size → size = sizeofXfer ∧ ∃ x, data = descriptor x)
    (hactive : s.pending ≠ [] ∨ toHost.producer ≠ .idle → unread s.large = [] ∧ large.producer = .idle ∧ mode = 1) :
    Consistent v { s with toHost := toHost, large := large, transferMode := mode } := by
  have hunread : unread toHost = unread s.toHost := by rw [unread, unread, hwritten.1, hwritten.2]
  have hunread' : unread large = unread s.large := by rw [unread, unread, hwritten'.1, hwritten'.2]
  refine { h with
      toHost := htoHost
      large := hlarge
      consumer := hconsumer.trans h.consumer
      aligned := ?_
      descriptors := hunread.trans h.descriptors
      announced := hannounced
      exclusive := ?_
      mode := fun hon ↦ (hactive hon).2.2
      host := ?_
      account := ?_ }
  · show toHost.received.length % 8 = 0
    rw [hwritten.2]
    exact h.aligned
  · intro hon
    obtain ⟨hnone, hidle, -⟩ := hactive hon
    exact ⟨hunread'.trans hnone, hidle⟩
  · exact h.host.mono rfl hconsumer' (append_nil _).symm (fun _ _ ↦ rfl)
      (Nat.le_of_eq (congrArg List.length hunread'.symm))
  · show s.transfers = s.returned ++ (s.inHand ++ (s.carried ++
      (s.pending.flatMap (Xfer.data s.buffer) ++ unread large)))
    rw [hunread']
    exact h.account

theorem unread_eq_nil {start : UInt32} (h : session.Invariant (viewOf w) start)
    (hzero : ringBufferAvailableRead session.ring w = 0) : unread session = [] := by
  have hlength := toNat_availableRead h
  rw [hzero] at hlength
  exact List.eq_nil_of_length_eq_zero hlength.symm

section

variable (h : Consistent v s)
include h

theorem Consistent.announce {x : Xfer} (hidle : s.large.producer = .idle)
    (hempty : ringBufferAvailableRead s.large.ring (some v) = 0)
    (hstep : s.toHost.step none (.checkWrite (descriptor x) sizeofXfer) = some toHost) :
    Consistent v { s with toHost := toHost, transferMode := 1 } := by
  have hinv := Session.Invariant.step (v := none) h.toHost hstep
  have hnone : unread s.large = [] := unread_eq_nil (w := some v) h.large hempty
  obtain ⟨hproducer, rfl | rfl⟩ := checkWrite_cases hstep
  · exact h.quiet hinv h.large rfl rfl ⟨rfl, rfl⟩ ⟨rfl, rfl⟩ h.announced fun _ ↦ ⟨hnone, hidle, rfl⟩
  · refine h.quiet hinv h.large rfl rfl ⟨rfl, rfl⟩ ⟨rfl, rfl⟩ ?_ fun _ ↦ ⟨hnone, hidle, rfl⟩
    rintro data size (hdata | hdata)
    · cases hdata
      exact ⟨rfl, x, rfl⟩
    · cases hdata

theorem Consistent.toHostCopy (hstep : s.toHost.step none .copyIn = some toHost) :
    Consistent v { s with toHost := toHost } := by
  have hinv := Session.Invariant.step (v := none) h.toHost hstep
  obtain ⟨data, size, buf, hproducer, rfl⟩ := copyIn_cases hstep
  have hactive : s.ToHostActive := .inr (by rw [hproducer]; exact nofun)
  obtain ⟨hnone, hidle⟩ := h.exclusive hactive
  refine h.quiet hinv h.large rfl rfl ⟨rfl, rfl⟩ ⟨rfl, rfl⟩ ?_ fun _ ↦ ⟨hnone, hidle, h.mode hactive⟩
  rintro data' size' (hdata | hdata)
  · cases hdata
  · cases hdata
    exact h.announced data size (.inl hproducer)

theorem Consistent.pending_eq_nil (hempty : ringBufferAvailableRead s.toHost.ring none = 0) : s.pending = [] := by
  have hlength := congrArg List.length h.descriptors
  rw [unread_eq_nil (w := none) h.toHost hempty, length_descriptors, length_nil] at hlength
  exact List.eq_nil_of_length_eq_zero (by omega)

theorem Consistent.chunk (hidle : s.toHost.producer = .idle) (hempty : ringBufferAvailableRead s.toHost.ring none = 0)
    (hstep : s.large.step (some v) (.checkWrite data size) = some large) :
    Consistent v { s with large := large, transferMode := 3 } := by
  have hinv := Session.Invariant.step (v := some v) h.large hstep
  have hquiet : ¬ s.ToHostActive := by
    rintro (hpending | hproducer)
    · exact hpending (h.pending_eq_nil hempty)
    · exact hproducer hidle
  obtain ⟨-, rfl | rfl⟩ := checkWrite_cases hstep
  · exact h.quiet h.toHost hinv rfl rfl ⟨rfl, rfl⟩ ⟨rfl, rfl⟩ h.announced fun hactive ↦ absurd hactive hquiet
  · exact h.quiet h.toHost hinv rfl rfl ⟨rfl, rfl⟩ ⟨rfl, rfl⟩ h.announced fun hactive ↦ absurd hactive hquiet

theorem Consistent.largeCopy (hstep : s.large.step (some v) .copyIn = some large) :
    Consistent v { s with large := large } := by
  have hinv := Session.Invariant.step (v := some v) h.large hstep
  obtain ⟨data, size, buf, hproducer, rfl⟩ := copyIn_cases hstep
  refine h.quiet h.toHost hinv rfl rfl ⟨rfl, rfl⟩ ⟨rfl, rfl⟩ h.announced fun hactive ↦ ?_
  have hidle := (h.exclusive hactive).2
  rw [hproducer] at hidle
  cases hidle

theorem Consistent.toHostPublish (hproducer : s.toHost.producer = .copied data size)
    (hstep : s.toHost.step none .publishWrite = some toHost) :
    Consistent v { s with
      toHost := toHost
      pending := s.pending ++ [Xfer.ofBytes (bytesOf data size)]
      transfers := s.transfers ++ (Xfer.ofBytes (bytesOf data size)).data s.buffer } := by
  have hinv := Session.Invariant.step (v := none) h.toHost hstep
  have hactive : s.ToHostActive := .inr (by rw [hproducer]; exact nofun)
  obtain ⟨hnone, hidle⟩ := h.exclusive hactive
  obtain ⟨rfl, x, rfl⟩ := h.announced data size (.inr hproducer)
  have hx : Xfer.ofBytes (bytesOf (descriptor x) sizeofXfer) = x := by
    rw [bytesOf_descriptor, ← append_nil x.bytes, Xfer.ofBytes_bytes]
  rw [hx]
  cases publishWrite_eq hproducer hstep
  refine { h with
      toHost := hinv
      descriptors := ?_
      announced := ?_
      exclusive := fun _ ↦ ⟨hnone, hidle⟩
      mode := fun _ ↦ h.mode hactive
      host := ?_
      account := ?_ }
  · show (s.toHost.written ++ bytesOf (descriptor x) sizeofXfer).drop s.toHost.received.length =
      (s.pending ++ [x]).flatMap Xfer.bytes
    rw [unread_append h.toHost.received_le, h.descriptors, bytesOf_descriptor, List.flatMap_append,
      List.flatMap_singleton]
  · rintro data size (hdata | hdata)
    · cases hdata
    · cases hdata
  · exact h.host.mono rfl rfl rfl (fun _ _ ↦ rfl) le_rfl
  · show s.transfers ++ x.data s.buffer = s.returned ++ (s.inHand ++ (s.carried ++
      ((s.pending ++ [x]).flatMap (Xfer.data s.buffer) ++ unread s.large)))
    rw [h.account, hnone, List.flatMap_append, List.flatMap_singleton]
    simp only [append_assoc, append_nil]

theorem Consistent.largePublish (hproducer : s.large.producer = .copied data size)
    (hstep : s.large.step (some v) .publishWrite = some large) :
    Consistent v { s with
      large := large
      transfers := s.transfers ++ bytesOf data size } := by
  have hinv := Session.Invariant.step (v := some v) h.large hstep
  have hquiet : ¬ s.ToHostActive := by
    intro hactive
    have hidle := (h.exclusive hactive).2
    rw [hproducer] at hidle
    cases hidle
  cases publishWrite_eq hproducer hstep
  have hunread := unread_append h.large.received_le (bytesOf data size)
  refine { h with
      large := hinv
      exclusive := fun hactive ↦ absurd hactive hquiet
      host := ?_
      account := ?_ }
  · refine h.host.mono rfl rfl (append_nil _).symm (fun _ _ ↦ rfl) ?_
    show _ ≤ ((s.large.written ++ bytesOf data size).drop s.large.received.length).length
    rw [hunread, length_append]
    exact Nat.le_add_right _ _
  · show s.transfers ++ bytesOf data size = s.returned ++ (s.inHand ++ (s.carried ++
      (s.pending.flatMap (Xfer.data s.buffer) ++
        (s.large.written ++ bytesOf data size).drop s.large.received.length)))
    rw [h.account, hunread]
    simp only [append_assoc]

theorem Consistent.guestStep (event : Event) (hstep : guestStep v s event = some next) : Consistent v next := by
  cases event with
  | store index value =>
    obtain ⟨hfree, hnext⟩ := Option.ite_none_right_eq_some.mp hstep
    exact Option.some.inj hnext ▸ h.store value hfree
  | announce x =>
    simp only [RingStream.guestStep] at hstep
    split at hstep
    · obtain ⟨hempty, hnext⟩ := Option.ite_none_right_eq_some.mp hstep
      obtain ⟨toHost, htoHost, rfl⟩ := map_eq_some_iff.mp hnext
      exact h.announce ‹_› hempty htoHost
    · cases hstep
  | toHostCopy =>
    obtain ⟨toHost, htoHost, rfl⟩ := map_eq_some_iff.mp hstep
    exact h.toHostCopy htoHost
  | toHostPublish =>
    simp only [RingStream.guestStep] at hstep
    split at hstep
    · obtain ⟨toHost, htoHost, rfl⟩ := map_eq_some_iff.mp hstep
      exact h.toHostPublish ‹_› htoHost
    · cases hstep
  | chunk data size =>
    simp only [RingStream.guestStep] at hstep
    split at hstep
    · obtain ⟨hempty, hnext⟩ := Option.ite_none_right_eq_some.mp hstep
      obtain ⟨large, hlarge, rfl⟩ := map_eq_some_iff.mp hnext
      exact h.chunk ‹_› hempty hlarge
    · cases hstep
  | largeCopy =>
    obtain ⟨large, hlarge, rfl⟩ := map_eq_some_iff.mp hstep
    exact h.largeCopy hlarge
  | largePublish =>
    simp only [RingStream.guestStep] at hstep
    split at hstep
    · obtain ⟨large, hlarge, rfl⟩ := map_eq_some_iff.mp hstep
      exact h.largePublish ‹_› hlarge
    · cases hstep
  | readRaw wanted dst => cases hstep
  | host exit => cases hstep

end

end Guest

section Host

variable {v : RingBufferView} {s next : System}

variable {wanted : ℕ} {out : List UInt8} {x : Xfer} {actuallyRead candidateStep : UInt32}

/-- A step of the host that leaves the rings alone. -/
theorem Consistent.atHost (h : Consistent v s) {stream : ReadState} {host : Host} {calls : List (ℕ × List UInt8)}
    (hleft : stream.mReadBufferLeft ≤ stream.mReadBuffer.length)
    (hready : { s with stream := stream, host := host, calls := calls }.HostReady host)
    (haccount : s.returned ++ (s.inHand ++ s.carried) =
      calls.flatMap Prod.snd ++ ({ s with stream := stream, host := host, calls := calls }.inHand ++
        { s with stream := stream, host := host, calls := calls }.carried))
    (hbounded : ∀ call ∈ calls, call.2.length ≤ call.1) :
    Consistent v { s with stream := stream, host := host, calls := calls } := by
  refine { h with left_le := hleft, host := hready, account := ?_, bounded := hbounded }
  have hsplit : s.transfers = s.returned ++ (s.inHand ++ s.carried) ++
      (s.pending.flatMap (Xfer.data s.buffer) ++ unread s.large) := by
    rw [h.account]
    simp only [append_assoc]
  rw [haccount] at hsplit
  refine hsplit.trans ?_
  simp only [System.returned, append_assoc]

theorem leftBytes_eq_nil (h : s.stream.mReadBufferLeft = 0) : s.leftBytes = [] := by
  rw [System.leftBytes, h, Nat.sub_zero, List.drop_length]

/-- Taking bytes from `mReadBuffer` moves them to the caller. -/
theorem leftBytes_take (h : s.stream.mReadBufferLeft ≤ s.stream.mReadBuffer.length) {avail : ℕ}
    (havail : avail ≤ s.stream.mReadBufferLeft) :
    s.leftBytes.take avail ++
      s.stream.mReadBuffer.drop (s.stream.mReadBuffer.length - (s.stream.mReadBufferLeft - avail)) =
      s.leftBytes := by
  have hskip : s.stream.mReadBuffer.length - (s.stream.mReadBufferLeft - avail) =
      (s.stream.mReadBuffer.length - s.stream.mReadBufferLeft) + avail := by omega
  rw [hskip, ← List.drop_drop]
  exact List.take_append_drop avail s.leftBytes

section

variable (h : Consistent v s)
include h

theorem Consistent.returns {stream : ReadState} (hhost : s.host = .loop wanted out)
    (hleft : stream.mReadBufferLeft ≤ stream.mReadBuffer.length)
    (hsame : { s with stream := stream }.leftBytes = s.leftBytes) :
    Consistent v ({ s with stream := stream }.returns wanted out) := by
  have hready := h.host
  rw [hhost] at hready
  refine h.atHost hleft hready.1 ?_ ?_
  · have hnow : s.inHand = out := by rw [System.inHand, hhost]
    have hcarried : s.carried = s.leftBytes := by rw [System.carried, hhost]
    rw [hnow, hcarried, List.flatMap_append, List.flatMap_singleton, ← hsame]
    simp only [System.returned, append_assoc]
    rfl
  · intro call hcall
    rcases List.mem_append.mp hcall with hcall | hcall
    · exact h.bounded call hcall
    · rw [List.mem_singleton.mp hcall]
      exact hready.2

theorem Consistent.announced_of_ne (hne : ringBufferAvailableRead s.toHost.ring none ≠ 0) :
    s.Announced (ringBufferAvailableRead s.toHost.ring none) := by
  have hlength := toNat_availableRead (v := none) h.toHost
  rw [h.descriptors, length_descriptors] at hlength
  have hpos : (ringBufferAvailableRead s.toHost.ring none).toNat ≠ 0 := fun hzero ↦ hne (UInt32.toNat_inj.mp hzero)
  refine ⟨by omega, ⟨_, hlength⟩, hlength.le⟩

theorem Consistent.loopStep (hhost : s.host = .loop wanted out) : Consistent v (s.loopStep wanted out) := by
  have hready := h.host
  rw [hhost] at hready
  have hnow : s.inHand = out := by rw [System.inHand, hhost]
  have hcarried : s.carried = s.leftBytes := by rw [System.carried, hhost]
  unfold System.loopStep
  split
  · split
    · have havail : min (wanted - out.length) s.stream.mReadBufferLeft ≤ s.stream.mReadBufferLeft :=
        Nat.min_le_right _ _
      refine h.atHost (Nat.le_trans (Nat.sub_le _ _) h.left_le) ⟨hready.1, ?_⟩ ?_ h.bounded
      · rw [length_append, List.length_take]
        omega
      · rw [hnow, hcarried, ← leftBytes_take h.left_le havail]
        simp only [System.inHand, System.carried, System.leftBytes, System.returned, append_assoc]
    · rename_i hzero
      have hnil := leftBytes_eq_nil (not_not.mp hzero)
      have hleft : s.stream.mReadBufferLeft ≤ ([] : List UInt8).length := (not_not.mp hzero).le
      split
      · exact h.returns hhost hleft (List.drop_nil.trans hnil.symm)
      · have hout : out = [] := List.eq_nil_of_length_eq_zero (by omega)
        have hempty : s.returned ++ (s.inHand ++ s.carried) = s.calls.flatMap Prod.snd := by
          rw [hnow, hcarried, hnil, hout]
          exact append_nil _
        dsimp only
        split
        · refine h.atHost hleft hready.1 ?_ h.bounded
          rw [hempty]
          simp [System.inHand, System.carried, System.leftBytes]
        · refine h.atHost hleft ⟨hready.1, not_not.mp hzero, h.announced_of_ne⟩ ?_ h.bounded
          rw [hempty]
          simp [System.inHand, System.carried, System.leftBytes]
  · exact h.returns hhost h.left_le rfl

theorem Consistent.loadedStep (exit : Bool) {ringAvailable : UInt32} (hhost : s.host = .loaded wanted ringAvailable) :
    Consistent v (s.loadedStep v exit wanted ringAvailable) := by
  have hready := h.host
  rw [hhost] at hready
  obtain ⟨hidle, hleft, hannounced⟩ := hready
  have hnow : s.inHand = [] := by rw [System.inHand, hhost]
  have hcarried : s.carried = [] := by rw [System.carried, hhost]; exact leftBytes_eq_nil hleft
  have hnil : s.leftBytes = [] := leftBytes_eq_nil hleft
  have hempty : s.returned ++ (s.inHand ++ s.carried) = s.calls.flatMap Prod.snd ++ ([] ++ s.leftBytes) := by
    rw [hnow, hcarried, hnil]
    rfl
  simp only [System.loadedStep]
  split
  · rename_i hne
    have hactive : s.ToHostActive := by
      left
      rintro hpending
      have hsome := hannounced hne
      rw [System.Announced, hpending, length_nil] at hsome
      omega
    rw [if_pos (h.mode hactive)]
    exact h.atHost h.left_le ⟨hidle, hleft, hannounced hne⟩ hempty h.bounded
  · split
    · have hlength := toNat_availableRead (v := some v) h.large
      have hmin : (min (ringBufferAvailableRead s.large.ring (some v)) (UInt32.ofNat wanted)).toNat =
          min (unread s.large).length (wanted % 2 ^ 32) := by
        rw [← hlength, ← UInt32.toNat_ofNat']
        exact UInt32.toNat_min ..
      refine h.atHost h.left_le ⟨hidle, hleft, ?_, Nat.zero_le _, ?_⟩ hempty h.bounded
      · rw [hmin]
        exact (Nat.min_le_right _ _).trans (Nat.mod_le _ _)
      · rw [hmin, length_nil, Nat.zero_add]
        exact Nat.min_le_left _ _
    · exact h.atHost h.left_le ⟨hidle, Nat.zero_le _⟩ hempty h.bounded

/-- The first descriptor in the ring. -/
theorem Consistent.first_bytes {rest : List Xfer} (hpending : s.pending = x :: rest) :
    window staticView.size.toNat s.toHost.buf s.toHost.ring.readPos.toNat 8 = x.bytes := by
  have hdescriptors := h.descriptors
  rw [hpending, flatMap_cons] at hdescriptors
  have hlength := congrArg List.length hdescriptors
  rw [length_unread, length_append, Xfer.length_bytes] at hlength
  have hcontents := h.toHost.contents
  rw [hlength, window_add] at hcontents
  have hposition : s.toHost.ring.readPos.toNat % staticView.size.toNat =
      ((0 : UInt32).toNat + s.toHost.received.length) % staticView.size.toNat := by
    rw [h.toHost.position.1, staticView.wrapped_mod]
  rw [window_of_modEq _ _ _ hposition]
  exact (List.append_inj (hcontents.trans hdescriptors) (by simp [Xfer.length_bytes])).1

theorem Consistent.positions_aligned :
    s.toHost.ring.readPos.toNat % 8 = 0 ∧ s.toHost.ring.writePos.toNat % 8 = 0 := by
  have haligned := h.aligned
  have hlength := congrArg List.length h.descriptors
  rw [length_unread, length_descriptors] at hlength
  have hle := h.toHost.received_le
  rw [h.toHost.position.1, h.toHost.position.2, UInt32.toNat_zero]
  omega

theorem Consistent.type1Step {available : UInt32} (hhost : s.host = .type1Read wanted available) :
    Consistent v (s.type1Step wanted available) := by
  have hready := h.host
  rw [hhost] at hready
  obtain ⟨hidle, hleft, hle, hdvd, hannounced⟩ := hready
  have hnow : s.inHand = [] := by rw [System.inHand, hhost]
  have hcarried : s.carried = s.leftBytes := by rw [System.carried, hhost]
  have hempty : s.returned ++ (s.inHand ++ s.carried) = s.calls.flatMap Prod.snd ++ ([] ++ s.leftBytes) := by
    rw [hnow, hcarried]
    rfl
  obtain ⟨x, rest, hpending⟩ : ∃ x rest, s.pending = x :: rest := by
    cases hpending : s.pending with
    | nil =>
      rw [hpending, length_nil] at hannounced
      omega
    | cons x rest => exact ⟨x, rest, rfl⟩
  have htotal : (available / sizeofXfer).toNat = available.toNat / 8 := UInt32.toNat_div ..
  have hne : available / sizeofXfer ≠ 0 := by
    intro hzero
    rw [hzero, UInt32.toNat_zero] at htotal
    omega
  have hwhole : available / sizeofXfer * sizeofXfer = available := by
    apply UInt32.toNat_inj.mp
    rw [UInt32.toNat_mul, htotal]
    have hlt := available.toNat_lt
    have hdiv := Nat.div_mul_cancel hdvd
    show available.toNat / 8 * 8 % 2 ^ 32 = available.toNat
    omega
  have havailable : available ≤ ringBufferAvailableRead s.toHost.ring none := by
    rw [UInt32.le_iff_toNat_le, toNat_availableRead (v := none) h.toHost, h.descriptors, length_descriptors]
    exact hannounced
  obtain ⟨more, hcopy⟩ := copyContents_first s.toHost.buf h.positions_aligned.1 h.positions_aligned.2 hle havailable
  rw [h.first_bytes hpending] at hcopy
  have hx {old : List UInt8} : Xfer.ofBytes (x.bytes ++ more ++ old) = x := by
    rw [append_assoc, Xfer.ofBytes_bytes]
  simp only [System.type1Step, hwhole, hcopy, if_neg hne, hx]
  exact h.atHost h.left_le ⟨hidle, hleft, rest, hpending⟩ hempty h.bounded

theorem Consistent.xferStep (hhost : s.host = .xfer wanted x) : Consistent v (s.xferStep wanted x) := by
  have hready := h.host
  rw [hhost] at hready
  obtain ⟨hidle, hleft, rest, hpending⟩ := hready
  have hnow : s.inHand = [] := by rw [System.inHand, hhost]
  have hcarried : s.carried = [] := by rw [System.carried, hhost]; exact leftBytes_eq_nil hleft
  have hlength : (x.data s.buffer).length = x.size.toNat := length_segment ..
  have hempty : s.returned ++ (s.inHand ++ s.carried) = s.calls.flatMap Prod.snd ++ ([] ++ []) := by
    rw [hnow, hcarried]
    rfl
  simp only [System.xferStep]
  split
  · refine h.atHost hlength.ge ⟨hidle, x, rest, hpending, ?_⟩ hempty h.bounded
    rw [System.leftBytes, hlength, Nat.sub_self, List.drop_zero]
  · rename_i hfits
    refine h.atHost h.left_le ⟨hidle, hleft, ?_, x, rest, hpending, rfl⟩ ?_ h.bounded
    · rw [hlength]
      omega
    · show _ = s.calls.flatMap Prod.snd ++ ([] ++ s.leftBytes)
      rw [hempty, leftBytes_eq_nil hleft]

/-- The descriptor leaves the ring. -/
theorem Consistent.advance {rest : List Xfer} {host : Host} (hpending : s.pending = x :: rest)
    (hready : { s.advanceToHost with host := host }.HostReady host)
    (haccount : s.inHand ++ (s.carried ++ x.data s.buffer) = { s.advanceToHost with host := host }.inHand ++ { s.advanceToHost with host := host }.carried) :
    Consistent v { s.advanceToHost with host := host } := by
  have hlength := congrArg List.length h.descriptors
  rw [hpending, length_unread, length_descriptors, List.length_cons] at hlength
  have hcan : canRead staticView.mask s.toHost.ring sizeofXfer = true := by
    rw [h.toHost.canRead_iff]
    show s.toHost.received.length + 8 ≤ s.toHost.written.length
    omega
  have hcan' : ringBufferCanRead s.toHost.ring sizeofXfer = true := hcan
  have hbytes : copyOut ringBufferSize ringBufferMask s.toHost.ring s.toHost.buf sizeofXfer = x.bytes :=
    (copyOut_eq_window staticView s.toHost.ring s.toHost.buf sizeofXfer (by decide)).trans (h.first_bytes hpending)
  have htoHost : s.advanceToHost.toHost = { s.toHost with
        ring := { s.toHost.ring with readPos := s.toHost.ring.readPos + sizeofXfer }
        received := s.toHost.received ++ x.bytes } := by
    simp [System.advanceToHost, ringBufferAdvanceRead, advanceSteps, hcan', hbytes]
  have hinv : s.advanceToHost.toHost.Invariant staticView 0 := by
    have hread := ((h.toHost.checkRead sizeofXfer hcan).copyOut rfl).publishRead rfl
    rw [← h.consumer] at hread
    rw [htoHost, ← hbytes]
    exact hread
  have hunread : unread s.advanceToHost.toHost = rest.flatMap Xfer.bytes := by
    rw [htoHost, unread, length_append, ← List.drop_drop]
    show (unread s.toHost).drop x.bytes.length = _
    rw [h.descriptors, hpending, flatMap_cons, List.drop_left]
  have hactive : { s.advanceToHost with host := host }.ToHostActive → s.ToHostActive := by
    rintro (hsome | hsome)
    · exact .inl (by rw [hpending]; exact nofun)
    · exact .inr (by simpa only [htoHost] using hsome)
  refine { h with
      toHost := hinv
      consumer := ?_
      aligned := ?_
      descriptors := ?_
      announced := ?_
      exclusive := fun hon ↦ h.exclusive (hactive hon)
      mode := fun hon ↦ h.mode (hactive hon)
      host := hready
      account := ?_ }
  · show s.advanceToHost.toHost.consumer = .idle
    rw [htoHost]
    exact h.consumer
  · have haligned := h.aligned
    show s.advanceToHost.toHost.received.length % 8 = 0
    rw [htoHost, length_append, Xfer.length_bytes]
    omega
  · show unread s.advanceToHost.toHost = s.pending.tail.flatMap Xfer.bytes
    rw [hunread, hpending, List.tail_cons]
  · show ∀ data size, s.advanceToHost.toHost.producer = .checked data size ∨
      s.advanceToHost.toHost.producer = .copied data size → _
    rw [htoHost]
    exact h.announced
  · show s.transfers = s.returned ++ ({ s.advanceToHost with host := host }.inHand ++
      ({ s.advanceToHost with host := host }.carried ++
        (s.pending.tail.flatMap (Xfer.data s.buffer) ++ unread s.large)))
    have hshift := congrArg (· ++ (rest.flatMap (Xfer.data s.buffer) ++ unread s.large)) haccount
    simp only [append_assoc] at hshift
    rw [h.account, hpending, flatMap_cons, List.tail_cons, append_assoc, hshift]

theorem Consistent.saved (hhost : s.host = .saved wanted) :
    Consistent v { s.advanceToHost with host := .loop wanted [] } := by
  have hready := h.host
  rw [hhost] at hready
  obtain ⟨hidle, x, rest, hpending, hleft⟩ := hready
  refine h.advance hpending ⟨hidle, Nat.zero_le _⟩ ?_
  have hnow : s.inHand = [] := by rw [System.inHand, hhost]
  have hcarried : s.carried = [] := by rw [System.carried, hhost]
  rw [hnow, hcarried, ← hleft]
  rfl

theorem Consistent.copied {bytes : List UInt8} (hhost : s.host = .copied wanted bytes) :
    Consistent v { s.advanceToHost with host := .loop wanted bytes } := by
  have hready := h.host
  rw [hhost] at hready
  obtain ⟨hidle, hleft, hlength, x, rest, hpending, hbytes⟩ := hready
  refine h.advance hpending ⟨hidle, hlength⟩ ?_
  have hnow : s.inHand = [] := by rw [System.inHand, hhost]
  have hcarried : s.carried = [] := by rw [System.carried, hhost]; exact leftBytes_eq_nil hleft
  show s.inHand ++ (s.carried ++ x.data s.buffer) = bytes ++ s.leftBytes
  rw [hnow, hcarried, ← hbytes, leftBytes_eq_nil hleft, append_nil]
  rfl

theorem Consistent.type3Done (hhost : s.host = .type3Read wanted actuallyRead candidateStep out)
    (hdone : ¬ out.length < actuallyRead.toNat) : Consistent v (s.type3Done wanted actuallyRead out) := by
  have hready := h.host
  rw [hhost] at hready
  obtain ⟨hidle, hleft, hwanted, hout, -⟩ := hready
  have hnone : actuallyRead.toNat - out.length = 0 := by omega
  have hall : out ++ segment s.dst out.length (actuallyRead.toNat - out.length) = out := by
    rw [hnone]
    exact append_nil out
  have hnow : s.inHand = out := by rw [System.inHand, hhost]
  have hcarried : s.carried = s.leftBytes := by rw [System.carried, hhost]
  rw [System.type3Done, hall]
  refine h.atHost h.left_le ⟨hidle, hout.trans hwanted⟩ ?_ h.bounded
  rw [hnow, hcarried]
  rfl

theorem Consistent.type3Step (hhost : s.host = .type3Read wanted actuallyRead candidateStep out)
    (hstep : s.type3Step v wanted actuallyRead candidateStep out = some next) : Consistent v next := by
  have hready := h.host
  rw [hhost] at hready
  obtain ⟨hidle, hleft, hwanted, hout, hmore⟩ := hready
  simp only [System.type3Step] at hstep
  split at hstep
  · rename_i hlt
    have hnow : s.inHand = out := by rw [System.inHand, hhost]
    have hcarried : s.carried = s.leftBytes := by rw [System.carried, hhost]
    generalize hcandidate : (if actuallyRead.toNat - out.length < candidateStep.toNat then
      UInt32.ofNat (actuallyRead.toNat - out.length) else candidateStep) = candidate at hstep
    have hfits : out.length + candidate.toNat ≤ actuallyRead.toNat := by
      have hsmall := actuallyRead.toNat_lt
      rw [← hcandidate]
      split
      · rw [UInt32.toNat_ofNat_of_lt' (show actuallyRead.toNat - out.length < 2 ^ 32 by omega)]
        omega
      · omega
    obtain ⟨large, hlarge, rfl⟩ := map_eq_some_iff.mp hstep
    split
    · rename_i hcan
      have hinv := Session.Invariant.step (v := some v) h.large hlarge
      simp only [Session.step, hidle, hcan, if_true, Option.some.injEq] at hlarge
      subst hlarge
      refine { h with
          large := hinv
          exclusive := h.exclusive
          host := ⟨.inl rfl, hleft, hwanted, hfits, hmore⟩
          account := ?_ }
      refine h.account.trans ?_
      rw [hnow, hcarried]
      rfl
    · refine h.atHost h.left_le ⟨hidle, hleft, hwanted, hout, hmore⟩ ?_ h.bounded
      rw [hnow, hcarried]
      rfl
  · rename_i hdone
    exact Option.some.inj hstep ▸ h.type3Done hhost hdone

/-- The bytes of a read step go from the ring to the caller. While they are in the ring no
descriptor is, so nothing overtakes them. -/
theorem Consistent.publishRead {bytes : List UInt8} {large : Session}
    (hhost : s.host = .readStep wanted actuallyRead candidateStep out)
    (hphase : s.large.consumer = .copied candidateStep bytes)
    (hstep : s.large.step (some v) .publishRead = some large) :
    Consistent v { s with
      large := large
      host := .type3Read wanted actuallyRead candidateStep (out ++ bytes) } := by
  have hready := h.host
  rw [hhost] at hready
  obtain ⟨-, hleft, hwanted, hout, hmore⟩ := hready
  have hinv := Session.Invariant.step (v := some v) h.large hstep
  obtain ⟨hlength, htake, hbound⟩ := h.large.consumer_copied candidateStep bytes hphase
  simp only [Session.step, hphase, Option.some.injEq] at hstep
  subst hstep
  have hsplit : unread s.large = bytes ++ s.large.written.drop (s.large.received ++ bytes).length := by
    have hwhole := List.take_append_drop (s.large.received.length + candidateStep.toNat) s.large.written
    rw [← htake, append_assoc] at hwhole
    have hdrop := congrArg (List.drop s.large.received.length) hwhole
    rw [List.drop_left, ← hlength, ← length_append] at hdrop
    exact hdrop.symm
  have hpending : bytes ≠ [] → s.pending = [] := by
    intro hne
    by_contra hsome
    have hnone := (h.exclusive (.inl hsome)).1
    rw [hnone] at hsplit
    exact hne (List.append_eq_nil_iff.mp hsplit.symm).1
  refine { h with
      large := hinv
      exclusive := fun hactive ↦ ?_
      host := ⟨rfl, hleft, hwanted, ?_, ?_⟩
      account := ?_ }
  · obtain ⟨hnone, hidle⟩ := h.exclusive hactive
    rw [hnone] at hsplit
    exact ⟨(List.append_eq_nil_iff.mp hsplit.symm).2, hidle⟩
  · rw [length_append, hlength]
    exact hout
  · rw [hsplit, length_append] at hmore
    rw [length_append, Nat.add_assoc]
    exact hmore
  · have hnow : s.inHand = out := by rw [System.inHand, hhost]
    have hcarried : s.carried = [] := by rw [System.carried, hhost]; exact leftBytes_eq_nil hleft
    show s.transfers = s.returned ++ ((out ++ bytes) ++ (s.leftBytes ++ (s.pending.flatMap (Xfer.data s.buffer) ++
        s.large.written.drop (s.large.received ++ bytes).length)))
    rw [h.account, hnow, hcarried, leftBytes_eq_nil hleft, hsplit]
    by_cases hbytes : bytes = []
    · rw [hbytes]
      simp only [append_nil, List.nil_append]
    · rw [hpending hbytes]
      simp only [List.flatMap_nil, List.nil_append, append_assoc]

theorem Consistent.readStep (hhost : s.host = .readStep wanted actuallyRead candidateStep out)
    (hstep : s.readStep v wanted actuallyRead candidateStep out = some next) : Consistent v next := by
  have hready := h.host
  rw [hhost] at hready
  obtain ⟨hchecked | ⟨bytes, hcopied⟩, hleft, hwanted, hout, hmore⟩ := hready
  · simp only [System.readStep, hchecked] at hstep
    obtain ⟨large, hlarge, rfl⟩ := map_eq_some_iff.mp hstep
    have hinv := Session.Invariant.step (v := some v) h.large hlarge
    simp only [Session.step, hchecked, Option.some.injEq] at hlarge
    subst hlarge
    refine { h with large := hinv, exclusive := h.exclusive, host := ?_ }
    show System.HostReady _ s.host
    rw [hhost]
    exact ⟨.inr ⟨_, rfl⟩, hleft, hwanted, hout, hmore⟩
  · simp only [System.readStep, hcopied] at hstep
    obtain ⟨large, hlarge, rfl⟩ := map_eq_some_iff.mp hstep
    have hgood : ¬ s.inError = 1 := by rw [h.noError]; decide
    rw [if_neg hgood]
    exact h.publishRead hhost hcopied hlarge

theorem Consistent.hostStep (exit : Bool) (hstep : hostStep v exit s = some next) : Consistent v next := by
  cases hhost : s.host with
  | idle => simp [RingStream.hostStep, hhost] at hstep
  | loop wanted out =>
    simp only [RingStream.hostStep, hhost, Option.some.injEq] at hstep
    exact hstep ▸ h.loopStep hhost
  | loaded wanted ringAvailable =>
    simp only [RingStream.hostStep, hhost, Option.some.injEq] at hstep
    exact hstep ▸ h.loadedStep exit hhost
  | type1Read wanted available =>
    simp only [RingStream.hostStep, hhost, Option.some.injEq] at hstep
    exact hstep ▸ h.type1Step hhost
  | xfer wanted x =>
    simp only [RingStream.hostStep, hhost, Option.some.injEq] at hstep
    exact hstep ▸ h.xferStep hhost
  | saved wanted =>
    simp only [RingStream.hostStep, hhost, Option.some.injEq] at hstep
    exact hstep ▸ h.saved hhost
  | copied wanted bytes =>
    simp only [RingStream.hostStep, hhost, Option.some.injEq] at hstep
    exact hstep ▸ h.copied hhost
  | type3Read wanted actuallyRead candidateStep out =>
    simp only [RingStream.hostStep, hhost] at hstep
    exact h.type3Step hhost hstep
  | readStep wanted actuallyRead candidateStep out =>
    simp only [RingStream.hostStep, hhost] at hstep
    exact h.readStep hhost hstep
  | crashed => simp [RingStream.hostStep, hhost] at hstep

/-- A call of `readRaw` begins. -/
theorem Consistent.readRaw (wanted : ℕ) (dst : ℕ → UInt8) (hhost : s.host = .idle) :
    Consistent v { s with host := .loop wanted [], dst := dst } := by
  have hready := h.host
  rw [hhost] at hready
  refine { h with host := ⟨hready, Nat.zero_le _⟩, account := ?_ }
  have hnow : s.inHand = [] := by rw [System.inHand, hhost]
  have hcarried : s.carried = s.leftBytes := by rw [System.carried, hhost]
  refine h.account.trans ?_
  rw [hnow, hcarried]
  rfl

theorem Consistent.step {event : Event} (hstep : step v event s = some next) : Consistent v next := by
  cases event with
  | readRaw wanted dst =>
    simp only [RingStream.step] at hstep
    split at hstep
    · exact Option.some.inj hstep ▸ h.readRaw wanted dst ‹_›
    · cases hstep
  | host exit => exact h.hostStep exit hstep
  | store index value => exact h.guestStep (.store index value) hstep
  | announce x => exact h.guestStep (.announce x) hstep
  | toHostCopy => exact h.guestStep .toHostCopy hstep
  | toHostPublish => exact h.guestStep .toHostPublish hstep
  | chunk data size => exact h.guestStep (.chunk data size) hstep
  | largeCopy => exact h.guestStep .largeCopy hstep
  | largePublish => exact h.guestStep .largePublish hstep

end

end Host

/-- In every interleaving the bytes that `readRaw` has returned are a prefix of the bytes of the
transfers, no call returns more than it wanted, and between two calls what follows is what
`mReadBuffer` carries over and then what the rings hold. -/
theorem readRaw_delivers {v : RingBufferView} {toHostBuf largeBuf buffer : ℕ → UInt8}
    {events : List Event} {s : System}
    (hrun : run (step v) (System.new toHostBuf largeBuf buffer) events = some s) :
    s.returned <+: s.transfers ∧
    (∀ call ∈ s.calls, call.2.length ≤ call.1) ∧
    (s.host = .idle →
      s.transfers = s.returned ++ (s.leftBytes ++
        (s.pending.flatMap (Xfer.data s.buffer) ++ unread s.large))) := by
  have h := invariant_of_run (fun _ _ _ h hstep ↦ Consistent.step h hstep)
    (consistent_new v toHostBuf largeBuf buffer) hrun
  refine ⟨⟨_, h.account.symm⟩, h.bounded, ?_⟩
  intro hidle
  have hnow : s.inHand = [] := by rw [System.inHand, hidle]
  have hcarried : s.carried = s.leftBytes := by rw [System.carried, hidle]
  rw [h.account, hnow, hcarried]
  rfl

/-- A view of 16 bytes. -/
def smallView : RingBufferView where
  size := 16
  mask := 15
  geometry := ⟨4, by decide, rfl, rfl⟩

/-- A transfer of three bytes is read in two calls, the next one comes in the large ring. -/
def carriedOver : List Event := [.announce ⟨4, 3⟩, .toHostCopy, .toHostPublish, .readRaw 2 fun _ ↦ 0] ++
    List.replicate 7 (.host false) ++ [.readRaw 5 fun _ ↦ 0] ++ List.replicate 2 (.host false) ++
    [.chunk (fun offset ↦ offset.toUInt8 + 9) 2, .largeCopy, .largePublish, .readRaw 4 fun _ ↦ 0] ++
    List.replicate 7 (.host false)

theorem readRaw_delivers_carriedOver :
    ∃ s, run (step smallView) (System.new (fun _ ↦ 0) (fun _ ↦ 0) Nat.toUInt8) carriedOver = some s ∧
      s.calls = [(2, [4, 5]), (5, [6]), (4, [9, 10])] ∧ s.returned <+: s.transfers := by
  have hcalls : (run (step smallView) (System.new (fun _ ↦ 0) (fun _ ↦ 0) Nat.toUInt8)
      carriedOver).map System.calls = some [(2, [4, 5]), (5, [6]), (4, [9, 10])] := by
    decide +kernel
  obtain ⟨s, hrun, hs⟩ := map_eq_some_iff.mp hcalls
  exact ⟨s, hrun, hs, (readRaw_delivers hrun).1⟩

end FdeEmugl.RingStream

import FdeEmugl.Pipe.MessagePipe

/-!
# What goes through a message pipe

Requests are found whatever the pieces they come in, and the guest gets the responses to them, whatever the
snapshots in between. A read that offers room behind the response gets bytes that are in no response.
-/

namespace FdeEmugl.MessagePipe

open Framing Overwrite Pipe Runs FdeEmugl.Stream
open AndroidMessagePipe
open List (append_assoc append_nil drop_drop length_append length_drop)

/-! ## The grammar -/

/-- A length that is not positive stands for itself. -/
def requestFormat : Format UInt8 Unit where
  headerSize := 4
  headerSize_pos := lengthSize_pos
  kind header := if 0 < toInt32 header then some () else none
  length header := (toInt32 header).toNat

theorem requestFormat_length (header : List UInt8) : requestFormat.length header = (toInt32 header).toNat := by
  simp only [requestFormat]

theorem requestFormat_message (header payload : List UInt8) :
    requestFormat.message header payload = if 0 < toInt32 header then some ((), payload) else none := by
  simp only [Format.message, requestFormat]
  split_ifs <;> rfl

theorem bmod_of_lt {value : ℕ} (h : value < 2 ^ 31) : (value : ℤ).bmod (2 ^ 32) = value := by
  apply Int.bmod_eq_of_le <;> omega

theorem toInt32_lt (bytes : List UInt8) : toInt32 bytes < 2 ^ 31 := by
  have h := Int.bmod_lt (x := ((getLe32 bytes).toNat : ℤ)) (m := 2 ^ 32) (by decide)
  exact h

/-- Three bytes are not negative. -/
theorem toInt32_nonneg {bytes : List UInt8} (h : bytes.length < 4) :
    0 ≤ toInt32 (bytes ++ List.replicate (4 - bytes.length) 0) := by
  have hlt := getLe32_lt h
  have hsmall : (getLe32 bytes).toNat < 2 ^ 31 := Nat.lt_of_lt_of_le hlt (Nat.pow_le_pow_right (by decide) (by decide))
  have hvalue : toInt32 (bytes ++ List.replicate (4 - bytes.length) 0) = ((getLe32 bytes).toNat : ℤ) := by
    unfold toInt32
    rw [getLe32_append_replicate]
    exact bmod_of_lt hsmall
  exact hvalue ▸ Int.natCast_nonneg _

namespace AndroidMessagePipe

variable {pipe : AndroidMessagePipe}

/-- The bytes of a request that is not complete. -/
def pending (pipe : AndroidMessagePipe) : List UInt8 :=
  match pipe.mGuestWaitingState with
  | .SendMesgLength => pipe.mSendLengthBuffer.take pipe.m_curPos
  | .SendMesgPayload => pipe.mSendLengthBuffer ++ pipe.mSendPayloadBuffer.take pipe.m_curPos
  | .RecvMesgLength | .RecvMesgPayload => []

/-- The bytes of a response that have not been given to the guest. -/
def toReceive (pipe : AndroidMessagePipe) : List UInt8 :=
  match pipe.mGuestWaitingState with
  | .SendMesgLength | .SendMesgPayload => []
  | .RecvMesgLength => pipe.mRecvLengthBuffer.drop pipe.m_curPos ++ pipe.mRecvPayloadBuffer
  | .RecvMesgPayload => pipe.mRecvPayloadBuffer.drop pipe.m_curPos

/-- What holds in each state. -/
def Suits (pipe : AndroidMessagePipe) : Prop :=
  match pipe.mGuestWaitingState with
  | .SendMesgLength => pipe.mSendPayloadBuffer = [] ∧ pipe.mRecvPayloadBuffer = []
  | .SendMesgPayload => toInt32 pipe.mSendLengthBuffer = pipe.mSendPayloadBuffer.length ∧ pipe.mRecvPayloadBuffer = []
  | .RecvMesgLength =>
    pipe.mRecvLengthBuffer = putLe32 (UInt32.ofNat pipe.mRecvPayloadBuffer.length) ∧ pipe.mSendPayloadBuffer = []
  | .RecvMesgPayload => pipe.mSendPayloadBuffer = []

/-- The invariant. -/
structure Sound (pipe : AndroidMessagePipe) : Prop where
  curPos_lt : pipe.m_curPos < pipe.buffer.length
  expected_eq : pipe.m_expected = pipe.buffer.length - pipe.m_curPos
  sendLength : pipe.mSendLengthBuffer.length = 4
  recvLength : pipe.mRecvLengthBuffer.length = 4
  sendLength_nonneg : 0 ≤ toInt32 pipe.mSendLengthBuffer
  zeros : pipe.mGuestWaitingState = .SendMesgLength →
    pipe.mSendLengthBuffer.drop pipe.m_curPos = List.replicate (4 - pipe.m_curPos) 0
  suits : pipe.Suits
  sendPayload_lt : pipe.mSendPayloadBuffer.length < 2 ^ 31
  recvPayload_lt : pipe.mRecvPayloadBuffer.length < 2 ^ 31

theorem sound_reset (hlength : pipe.mRecvLengthBuffer.length = 4) : pipe.resetToInitState.Sound where
  curPos_lt := Nat.zero_lt_succ 3
  expected_eq := rfl
  sendLength := rfl
  recvLength := hlength
  sendLength_nonneg := by
    have hzero : 0 ≤ toInt32 (putLe32 0) := by decide
    exact hzero
  zeros _ := rfl
  suits := ⟨rfl, rfl⟩
  sendPayload_lt := Nat.two_pow_pos 31
  recvPayload_lt := Nat.two_pow_pos 31

/-- What is copied at once. -/
theorem Sound.toCopy_eq (h : pipe.Sound) (bufsize : ℕ) :
    pipe.toCopy bufsize = min bufsize (pipe.buffer.length - pipe.m_curPos) := by
  have hpos := h.curPos_lt
  rw [toCopy, h.expected_eq]
  omega

theorem Sound.expected_pos (h : pipe.Sound) : 0 < pipe.m_expected := by
  have hpos := h.curPos_lt
  rw [h.expected_eq]
  omega

/-- The pipe waits for the guest in one of two ways. -/
theorem Sound.ready (h : pipe.Sound) : pipe.readyForGuestToReceive = !pipe.readyForGuestToSend := by
  have hpositive := h.expected_pos
  unfold readyForGuestToReceive readyForGuestToSend
  cases pipe.mGuestWaitingState <;> simp [hpositive]

/-- What is copied from a buffer. -/
def piece (pipe : AndroidMessagePipe) (bufdata : List UInt8) : List UInt8 := bufdata.take (pipe.toCopy bufdata.length)

theorem length_piece (pipe : AndroidMessagePipe) (bufdata : List UInt8) :
    (pipe.piece bufdata).length = pipe.toCopy bufdata.length :=
  List.length_take_of_le (Nat.min_le_left _ _)

section

variable (h : pipe.Sound)
include h

theorem Sound.copyFromBufdata_expected (bufdata : List UInt8) :
    (pipe.copyFromBufdata bufdata).m_expected = pipe.buffer.length - pipe.m_curPos - (pipe.piece bufdata).length := by
  rw [← h.expected_eq, length_piece]
  unfold copyFromBufdata advance setBuffer
  split <;> rfl

theorem Sound.le_buffer (bufdata : List UInt8) :
    pipe.m_curPos + (pipe.piece bufdata).length ≤ pipe.buffer.length := by
  have hpos := h.curPos_lt
  have hcopy := h.toCopy_eq bufdata.length
  rw [length_piece]
  omega

/-- A piece of a length that does not come to its end. -/
theorem Sound.lengthPart (hstate : pipe.mGuestWaitingState = .SendMesgLength) {bufdata : List UInt8}
    (hmore : (pipe.copyFromBufdata bufdata).m_expected ≠ 0) :
    (pipe.copyFromBufdata bufdata).Sound ∧
      (pipe.copyFromBufdata bufdata).pending = pipe.pending ++ pipe.piece bufdata ∧
      requestFormat.next (pipe.pending ++ pipe.piece bufdata) = none := by
  have hpos := h.curPos_lt
  have hle := h.le_buffer bufdata
  have hexpected := h.copyFromBufdata_expected bufdata
  have hbuffer : pipe.buffer = pipe.mSendLengthBuffer := by rw [buffer, hstate]
  have hpending : pipe.pending = pipe.mSendLengthBuffer.take pipe.m_curPos := by rw [pending, hstate]
  have hcopy : pipe.copyFromBufdata bufdata = { pipe with
        mSendLengthBuffer := overwrite pipe.mSendLengthBuffer pipe.m_curPos (pipe.piece bufdata)
        m_expected := pipe.m_expected - (pipe.piece bufdata).length
        m_curPos := pipe.m_curPos + (pipe.piece bufdata).length } := by
    rw [length_piece]
    simp only [copyFromBufdata, setBuffer, hstate, hbuffer, advance, piece]
  rw [hcopy] at hmore hexpected ⊢
  rw [hbuffer] at hpos hle hexpected
  have hfour := h.sendLength
  have hlength := length_overwrite hle
  have htake := take_overwrite (pipe.piece bufdata) hpos.le
  have hdrop := drop_overwrite (pipe.piece bufdata) hpos.le
  have hzeros := h.zeros hstate
  have hshort : (pipe.pending ++ pipe.piece bufdata).length < 4 := by
    rw [hpending, length_append, List.length_take]
    simp only at hmore hexpected
    omega
  have hrest : (overwrite pipe.mSendLengthBuffer pipe.m_curPos (pipe.piece bufdata)).drop
      (pipe.m_curPos + (pipe.piece bufdata).length) =
        List.replicate (4 - (pipe.m_curPos + (pipe.piece bufdata).length)) 0 := by
    rw [hdrop, ← drop_drop, hzeros, List.drop_replicate, Nat.sub_sub]
  refine ⟨⟨?_, ?_, hlength.trans hfour, h.recvLength, ?_, fun _ ↦ hrest, ?_, h.sendPayload_lt, h.recvPayload_lt⟩, ?_,
    Format.next_short hshort⟩
  · simp only [buffer, hstate, hlength] at hmore hexpected ⊢
    omega
  · simp only [buffer, hstate, hlength] at hexpected ⊢
    omega
  · have hbytes := (overwrite pipe.mSendLengthBuffer pipe.m_curPos (pipe.piece bufdata)).take_append_drop
      (pipe.m_curPos + (pipe.piece bufdata).length)
    rw [htake, hrest, ← hpending] at hbytes
    have hcount : pipe.m_curPos + (pipe.piece bufdata).length = (pipe.pending ++ pipe.piece bufdata).length := by
      rw [hpending, length_append, List.length_take_of_le hpos.le]
    rw [hcount] at hbytes
    exact hbytes ▸ toInt32_nonneg hshort
  · have hsuits := h.suits
    simpa only [Suits, hstate] using hsuits
  · simp only [pending, hstate, htake]

/-- The piece ends with the buffer. -/
theorem Sound.overwrite_eq {bufdata : List UInt8} (hend : (pipe.copyFromBufdata bufdata).m_expected = 0) :
    overwrite pipe.buffer pipe.m_curPos (pipe.piece bufdata) =
      pipe.buffer.take pipe.m_curPos ++ pipe.piece bufdata := by
  have hle := h.le_buffer bufdata
  have hexpected := h.copyFromBufdata_expected bufdata
  exact overwrite_full (by omega)

/-- A piece of a payload that does not come to its end. -/
theorem Sound.payloadPart (hstate : pipe.mGuestWaitingState = .SendMesgPayload) {bufdata : List UInt8}
    (hmore : (pipe.copyFromBufdata bufdata).m_expected ≠ 0) :
    (pipe.copyFromBufdata bufdata).Sound ∧
      (pipe.copyFromBufdata bufdata).pending = pipe.pending ++ pipe.piece bufdata ∧
      requestFormat.next (pipe.pending ++ pipe.piece bufdata) = none := by
  have hpos := h.curPos_lt
  have hle := h.le_buffer bufdata
  have hexpected := h.copyFromBufdata_expected bufdata
  have hbuffer : pipe.buffer = pipe.mSendPayloadBuffer := by rw [buffer, hstate]
  have hpending : pipe.pending = pipe.mSendLengthBuffer ++ pipe.mSendPayloadBuffer.take pipe.m_curPos := by
    rw [pending, hstate]
  have hcopy : pipe.copyFromBufdata bufdata = { pipe with
        mSendPayloadBuffer := overwrite pipe.mSendPayloadBuffer pipe.m_curPos (pipe.piece bufdata)
        m_expected := pipe.m_expected - (pipe.piece bufdata).length
        m_curPos := pipe.m_curPos + (pipe.piece bufdata).length } := by
    rw [length_piece]
    simp only [copyFromBufdata, setBuffer, hstate, hbuffer, advance, piece]
  rw [hcopy] at hmore hexpected ⊢
  rw [hbuffer] at hpos hle hexpected
  have hlength := length_overwrite hle
  have htake := take_overwrite (pipe.piece bufdata) hpos.le
  have hsuits := h.suits
  simp only [Suits, hstate] at hsuits
  refine ⟨⟨?_, ?_, h.sendLength, h.recvLength, h.sendLength_nonneg, ?_, ?_, hlength ▸ h.sendPayload_lt,
    h.recvPayload_lt⟩, ?_, ?_⟩
  · simp only [buffer, hstate, hlength] at hmore hexpected ⊢
    omega
  · simp only [buffer, hstate, hlength] at hexpected ⊢
    omega
  · intro hlengthState
    simp only [hstate, reduceCtorEq] at hlengthState
  · simpa only [Suits, hstate, hlength] using hsuits
  · simp only [pending, hstate, htake, append_assoc]
  · rw [hpending, append_assoc, Format.next_frame h.sendLength, if_neg]
    simp only at hmore hexpected
    rw [requestFormat_length, hsuits.1, length_append, List.length_take_of_le hpos.le]
    omega

/-- The bytes that are copied are the next ones of the response. -/
theorem Sound.copied_eq (hready : pipe.readyForGuestToReceive = true) (bufsize : ℕ) :
    (pipe.copyToBufdata bufsize).1 = pipe.toReceive.take (pipe.toCopy bufsize) := by
  obtain ⟨hstate, _⟩ := of_decide_eq_true hready
  have hle : pipe.toCopy bufsize ≤ (pipe.buffer.drop pipe.m_curPos).length := by
    rw [h.toCopy_eq, length_drop]
    exact Nat.min_le_right _ _
  obtain hstate | hstate := hstate
  · simp only [buffer, hstate] at hle
    simp only [copyToBufdata, buffer, toReceive, hstate, List.take_append_of_le_length hle]
  · simp only [copyToBufdata, buffer, toReceive, hstate]

/-- What is copied does not come to the end of the length or of the payload. -/
theorem Sound.recvPart (hready : pipe.readyForGuestToReceive = true) {bufsize : ℕ}
    (hmore : (pipe.copyToBufdata bufsize).2.m_expected ≠ 0) :
    (pipe.copyToBufdata bufsize).2.Sound ∧
      (pipe.copyToBufdata bufsize).2.toReceive = pipe.toReceive.drop (pipe.toCopy bufsize) := by
  obtain ⟨hstate, _⟩ := of_decide_eq_true hready
  have hpos := h.curPos_lt
  have hexpected := h.expected_eq
  have hcopy := h.toCopy_eq bufsize
  have hsuits := h.suits
  simp only [copyToBufdata, advance] at hmore ⊢
  refine ⟨⟨?_, ?_, h.sendLength, h.recvLength, h.sendLength_nonneg, ?_, hsuits, h.sendPayload_lt, h.recvPayload_lt⟩, ?_⟩
  · change pipe.m_curPos + pipe.toCopy bufsize < pipe.buffer.length
    omega
  · change pipe.m_expected - pipe.toCopy bufsize = pipe.buffer.length - (pipe.m_curPos + pipe.toCopy bufsize : ℕ)
    omega
  · intro hlength
    change pipe.mGuestWaitingState = _ at hlength
    simp only [hlength, reduceCtorEq, or_self] at hstate
  · have hle : pipe.toCopy bufsize ≤ (pipe.buffer.drop pipe.m_curPos).length := by
      rw [length_drop]
      omega
    obtain hstate | hstate := hstate
    · simp only [buffer, hstate] at hle
      simp only [toReceive, hstate]
      rw [List.drop_append_of_le_length hle, drop_drop]
    · simp only [toReceive, hstate, drop_drop]

end

end AndroidMessagePipe

open AndroidMessagePipe

/-! ## The session -/

/-- `m_cb` answers with what an `int32_t` can count. -/
def AnswersFit (m_cb : List UInt8 → List UInt8 → List UInt8) : Prop :=
  ∀ request, request.length < 2 ^ 31 → (m_cb request []).length < 2 ^ 31

namespace Session

variable {m_cb : List UInt8 → List UInt8 → List UInt8} {session : Session}

/-- The response to a request, with its length. -/
def response (m_cb : List UInt8 → List UInt8 → List UInt8) (request : List UInt8) : List UInt8 :=
  putMessage (m_cb request [])

/-- The invariant. -/
structure Holds (m_cb : List UInt8 → List UInt8 → List UInt8) (session : Session) : Prop where
  sound : session.pipe.Sound
  received : requestFormat.Received session.accepted session.pipe.pending
    (session.requests.map fun request ↦ ((), request))
  flow : session.delivered ++ session.pipe.toReceive = session.requests.flatMap (response m_cb)

variable {bufdata : List UInt8}

/-- The length of a request is complete. -/
theorem Holds.lengthWhole (h : session.Holds m_cb) (hstate : session.pipe.mGuestWaitingState = .SendMesgLength)
    (hend : (session.pipe.copyFromBufdata bufdata).m_expected = 0) :
    Holds m_cb (switchGuestWaitingState m_cb { session with
        pipe := session.pipe.copyFromBufdata bufdata
        accepted := session.accepted ++ session.pipe.piece bufdata }) := by
  obtain ⟨hsound, hreceived, hflow⟩ := h
  have hover := hsound.overwrite_eq hend
  have hle := hsound.le_buffer bufdata
  have hexpected := hsound.copyFromBufdata_expected bufdata
  have hbuffer : session.pipe.buffer = session.pipe.mSendLengthBuffer := by
    rw [AndroidMessagePipe.buffer, hstate]
  have hpending : session.pipe.pending = session.pipe.mSendLengthBuffer.take session.pipe.m_curPos := by
    rw [pending, hstate]
  have hsuits := hsound.suits
  simp only [Suits, hstate] at hsuits
  have htoReceive : session.pipe.toReceive = [] := by rw [toReceive, hstate]
  rw [hbuffer] at hover hle hexpected
  rw [← hpending] at hover
  have hheader : (session.pipe.pending ++ session.pipe.piece bufdata).length = requestFormat.headerSize := by
    have hfour := hsound.sendLength
    rw [hpending, length_append, List.length_take]
    change _ = 4
    omega
  have hnext := Format.next_frame hheader []
  rw [append_nil, requestFormat_length, requestFormat_message] at hnext
  have hcopy : session.pipe.copyFromBufdata bufdata = { session.pipe with
        mSendLengthBuffer := session.pipe.pending ++ session.pipe.piece bufdata
        m_expected := session.pipe.m_expected - (session.pipe.piece bufdata).length
        m_curPos := session.pipe.m_curPos + (session.pipe.piece bufdata).length } := by
    rw [← hover, length_piece]
    simp only [copyFromBufdata, setBuffer, hstate, hbuffer,
      advance, piece]
  rw [hcopy]
  simp only [switchGuestWaitingState, hstate]
  generalize hbytes : session.pipe.pending ++ session.pipe.piece bufdata = header at *
  have hlt := toInt32_lt header
  obtain ⟨value, hvalue⟩ : ∃ value, toInt32 header = value := ⟨_, rfl⟩
  rw [hvalue] at hnext hlt ⊢
  split_ifs with hpositive
  · have hsize : (resize value.toNat session.pipe.mSendPayloadBuffer).length = value.toNat := by
      rw [hsuits.1, resize, List.take_nil, List.nil_append, List.length_replicate,
        List.length_nil, Nat.sub_zero]
    have hnone : requestFormat.next header = none := by
      rw [hnext, if_neg]
      rw [List.length_nil]
      omega
    refine ⟨⟨?_, ?_, hheader, hsound.recvLength, ?_, nofun, ⟨?_, hsuits.2⟩, ?_, hsound.recvPayload_lt⟩, ?_, ?_⟩
    · simp only [AndroidMessagePipe.buffer]
      omega
    · simp only [AndroidMessagePipe.buffer]
      omega
    · simp only
      omega
    · simp only
      omega
    · simp only
      omega
    · simp only [pending, List.take_zero, append_nil]
      rw [← hbytes]
      exact hreceived.part (hbytes ▸ hnone)
    · rw [htoReceive] at hflow
      exact hflow
  · have hsome : requestFormat.next header = some (none, []) := by
      rw [hnext, if_pos, if_neg hpositive, List.drop_nil]
      rw [List.length_nil]
      omega
    refine ⟨sound_reset hsound.recvLength, ?_, ?_⟩
    · have hwhole := hreceived.whole (hbytes ▸ hsome)
      rw [Option.toList_none, append_nil] at hwhole
      exact hwhole
    · rw [htoReceive] at hflow
      exact hflow

/-- A request is complete. -/
theorem Holds.payloadWhole (h : session.Holds m_cb) (hfit : AnswersFit m_cb)
    (hstate : session.pipe.mGuestWaitingState = .SendMesgPayload)
    (hend : (session.pipe.copyFromBufdata bufdata).m_expected = 0) :
    Holds m_cb (switchGuestWaitingState m_cb { session with
        pipe := session.pipe.copyFromBufdata bufdata
        accepted := session.accepted ++ session.pipe.piece bufdata }) := by
  obtain ⟨hsound, hreceived, hflow⟩ := h
  have hpos := hsound.curPos_lt
  have hover := hsound.overwrite_eq hend
  have hle := hsound.le_buffer bufdata
  have hexpected := hsound.copyFromBufdata_expected bufdata
  have hbuffer : session.pipe.buffer = session.pipe.mSendPayloadBuffer := by
    rw [AndroidMessagePipe.buffer, hstate]
  have hsuits := hsound.suits
  simp only [Suits, hstate] at hsuits
  have htoReceive : session.pipe.toReceive = [] := by rw [toReceive, hstate]
  have hcopy : session.pipe.copyFromBufdata bufdata = { session.pipe with
        mSendPayloadBuffer := session.pipe.mSendPayloadBuffer.take session.pipe.m_curPos ++ session.pipe.piece bufdata
        m_expected := session.pipe.m_expected - (session.pipe.piece bufdata).length
        m_curPos := session.pipe.m_curPos + (session.pipe.piece bufdata).length } := by
    rw [← hbuffer, ← hover, length_piece]
    simp only [copyFromBufdata, setBuffer, hstate,
      advance, piece]
  have hpending : session.pipe.pending ++ session.pipe.piece bufdata = session.pipe.mSendLengthBuffer ++
      (session.pipe.mSendPayloadBuffer.take session.pipe.m_curPos ++ session.pipe.piece bufdata) := by
    simp only [pending, hstate, append_assoc]
  have hrequest : (session.pipe.mSendPayloadBuffer.take session.pipe.m_curPos ++ session.pipe.piece bufdata).length =
      session.pipe.mSendPayloadBuffer.length := by
    rw [hbuffer] at hpos hle hexpected
    rw [length_append, List.length_take_of_le hpos.le]
    omega
  rw [hcopy]
  simp only [switchGuestWaitingState, hstate, hsuits.2]
  generalize session.pipe.mSendPayloadBuffer.take session.pipe.m_curPos ++ session.pipe.piece bufdata = request at *
  have hanswer := hfit request (hrequest ▸ hsound.sendPayload_lt)
  have hpositive : 0 < toInt32 session.pipe.mSendLengthBuffer := by
    rw [hbuffer] at hpos
    rw [hsuits.1]
    omega
  have hsome : requestFormat.next (session.pipe.pending ++ session.pipe.piece bufdata) = some (some ((), request), []) := by
    have hlength : requestFormat.length session.pipe.mSendLengthBuffer = request.length := by
      rw [requestFormat_length, hsuits.1, hrequest, Int.toNat_natCast]
    rw [hpending, Format.next_frame hsound.sendLength, hlength, if_pos le_rfl, List.take_length, List.drop_length,
      requestFormat_message, if_pos hpositive]
  refine ⟨⟨?_, ?_, hsound.sendLength, rfl, hsound.sendLength_nonneg, nofun, ⟨rfl, rfl⟩, Nat.two_pow_pos 31, hanswer⟩, ?_, ?_⟩
  · simp only [AndroidMessagePipe.buffer, length_putLe32]
    exact Nat.zero_lt_succ 3
  · simp only [AndroidMessagePipe.buffer, length_putLe32]
    rfl
  · have hwhole := hreceived.whole hsome
    rw [Option.toList_some] at hwhole
    simp only [List.map_append, List.map_singleton]
    exact hwhole
  · rw [htoReceive, append_nil] at hflow
    simp only [List.flatMap_append, ← hflow, List.flatMap_singleton]
    rfl

/-- A turn of the loop of `onGuestSend`. -/
def sendTurn (m_cb : List UInt8 → List UInt8 → List UInt8) (bufdata : List UInt8) (session : Session) : Session :=
  let copied : Session := { session with
      pipe := session.pipe.copyFromBufdata bufdata
      accepted := session.accepted ++ session.pipe.piece bufdata }
  if (session.pipe.copyFromBufdata bufdata).m_expected = 0 then copied.switchGuestWaitingState m_cb else copied

section

variable (h : session.Holds m_cb) (hfit : AnswersFit m_cb) (hready : session.pipe.readyForGuestToSend = true)
include h hfit hready

theorem Holds.sendTurn (bufdata : List UInt8) : (session.sendTurn m_cb bufdata).Holds m_cb := by
  obtain ⟨hstate, _⟩ := of_decide_eq_true hready
  unfold Session.sendTurn
  split_ifs with hend
  · obtain hstate | hstate := hstate
    · exact h.lengthWhole hstate hend
    · exact h.payloadWhole hfit hstate hend
  · have hpart : (session.pipe.copyFromBufdata bufdata).Sound ∧
        (session.pipe.copyFromBufdata bufdata).pending = session.pipe.pending ++ session.pipe.piece bufdata ∧
        requestFormat.next (session.pipe.pending ++ session.pipe.piece bufdata) = none := by
      obtain hstate | hstate := hstate
      · exact h.sound.lengthPart hstate hend
      · exact h.sound.payloadPart hstate hend
    obtain ⟨hsound, hpending, hnone⟩ := hpart
    refine ⟨hsound, ?_, ?_⟩
    · rw [hpending]
      exact h.received.part hnone
    · have hflow := h.flow
      have hsame : (session.pipe.copyFromBufdata bufdata).toReceive = session.pipe.toReceive := by
        obtain hstate | hstate := hstate <;>
          simp only [toReceive, copyFromBufdata, advance,
            setBuffer, hstate]
      rw [hsame]
      exact hflow

/-- What the guest writes is taken to its end, or to the end of a request. -/
theorem Holds.sendBuffer {fuel : ℕ} (hfuel : bufdata.length < fuel) :
    ∃ turned after, Session.sendBuffer m_cb fuel bufdata session = some (turned, after) ∧ after.Holds m_cb ∧
      (turned = false → after.pipe.readyForGuestToSend = true) := by
  induction fuel generalizing session bufdata with
  | zero => exact absurd hfuel (Nat.not_lt_zero _)
  | succ fuel ih =>
    rw [Session.sendBuffer]
    split_ifs with hempty
    · exact ⟨false, session, rfl, h, fun _ ↦ hready⟩
    · have hturn := h.sendTurn hfit hready bufdata
      have hcount : 0 < session.pipe.toCopy bufdata.length := by
        have hpos := h.sound.curPos_lt
        have hpositive := List.length_pos_iff.mpr hempty
        rw [h.sound.toCopy_eq]
        omega
      have hless : (bufdata.drop (session.pipe.toCopy bufdata.length)).length < fuel := by
        have hpositive := List.length_pos_iff.mpr hempty
        rw [length_drop]
        omega
      have hrest {after : Session} (hafter : after.Holds m_cb) (hready : after.pipe.readyForGuestToSend = true) :=
        ih hafter hready hless
      by_cases hend : (session.pipe.copyFromBufdata bufdata).m_expected = 0
      · have hturned : session.sendTurn m_cb bufdata = _ := if_pos hend
        rw [hturned, piece] at hturn
        simp only [if_pos hend]
        split_ifs with hreceive
        · exact ⟨true, _, rfl, hturn, nofun⟩
        · rw [hturn.sound.ready, Bool.not_eq_true', Bool.not_eq_false] at hreceive
          exact hrest hturn hreceive
      · have hturned : session.sendTurn m_cb bufdata = _ := if_neg hend
        rw [hturned, piece] at hturn
        simp only [if_neg hend]
        refine hrest hturn ?_
        have hpositive := hturn.sound.expected_pos
        obtain ⟨hstate, _⟩ := of_decide_eq_true hready
        have hsame : (session.pipe.copyFromBufdata bufdata).mGuestWaitingState = session.pipe.mGuestWaitingState := by
          obtain hstate | hstate := hstate <;>
            simp only [copyFromBufdata, advance, setBuffer,
              hstate]
        exact decide_eq_true ⟨hsame ▸ hstate, hpositive⟩

theorem Holds.sendEach (buffers : List (List UInt8)) :
    ∃ after, Session.sendEach m_cb buffers session = some after ∧ after.Holds m_cb := by
  induction buffers generalizing session with
  | nil => exact ⟨session, rfl, h⟩
  | cons buffer buffers ih =>
    obtain ⟨turned, after, hsend, hafter, hmore⟩ := h.sendBuffer hfit hready (Nat.lt_succ_self buffer.length)
    rw [Session.sendEach, hsend, Option.bind_some]
    cases turned with
    | true => exact ⟨after, rfl, hafter⟩
    | false => exact ih hafter (hmore rfl)

end

theorem Holds.onGuestSend (h : session.Holds m_cb) (hfit : AnswersFit m_cb) (buffers : List (List UInt8)) :
    ∃ result after, session.onGuestSend m_cb buffers = some (result, after) ∧ after.Holds m_cb := by
  rw [Session.onGuestSend]
  split_ifs with hready
  · obtain ⟨after, hsend, hafter⟩ := h.sendEach hfit hready buffers
    rw [hsend]
    exact ⟨_, after, rfl, hafter⟩
  · exact ⟨PIPE_ERROR_AGAIN, session, rfl, h⟩

/-! ### Receiving -/

/-- A turn of the loop of `onGuestRecv`. -/
def recvTurn (m_cb : List UInt8 → List UInt8 → List UInt8) (bufsize : ℕ) (session : Session) : Session :=
  let copied : Session := { session with
      pipe := (session.pipe.copyToBufdata bufsize).2
      delivered := session.delivered ++ (session.pipe.copyToBufdata bufsize).1 }
  if (session.pipe.copyToBufdata bufsize).2.m_expected = 0 then copied.switchGuestWaitingState m_cb else copied

section

variable (h : session.Holds m_cb)
include h

/-- The pipe waits for the guest to receive while there is something to receive. -/
theorem Holds.ready_iff : session.pipe.readyForGuestToReceive = true ↔ session.pipe.toReceive ≠ [] := by
  have hpos := h.sound.curPos_lt
  have hpositive := h.sound.expected_pos
  unfold readyForGuestToReceive toReceive
  cases hstate : session.pipe.mGuestWaitingState with
  | SendMesgLength => simp [hpositive]
  | SendMesgPayload => simp [hpositive]
  | RecvMesgLength =>
    simp only [AndroidMessagePipe.buffer, hstate] at hpos
    simp only [hpositive, decide_true, true_or, and_self, ne_eq, List.append_eq_nil_iff, List.drop_eq_nil_iff, true_iff,
      not_and_or]
    exact Or.inl (by omega)
  | RecvMesgPayload =>
    simp only [AndroidMessagePipe.buffer, hstate] at hpos
    simp only [hpositive, decide_true, or_true, and_self, ne_eq, List.drop_eq_nil_iff, true_iff]
    omega

/-- What is kept of the bytes that the guest has got. -/
theorem Holds.flow_take (count : ℕ) :
    session.delivered ++ session.pipe.toReceive.take count ++ session.pipe.toReceive.drop count =
      session.requests.flatMap (response m_cb) := by
  rw [append_assoc, List.take_append_drop]
  exact h.flow

/-- A turn gives the next bytes of the response to the guest. -/
theorem Holds.recvTurn (hready : session.pipe.readyForGuestToReceive = true) (bufsize : ℕ) :
    (session.recvTurn m_cb bufsize).Holds m_cb ∧
      (session.recvTurn m_cb bufsize).pipe.toReceive = session.pipe.toReceive.drop (session.pipe.toCopy bufsize) := by
  have hsound := h.sound
  obtain ⟨hstate, _⟩ := of_decide_eq_true hready
  have hpending : session.pipe.pending = [] := by
    obtain hstate | hstate := hstate <;> rw [pending, hstate]
  have hreceived := h.received
  rw [hpending] at hreceived
  have hflow := h.flow_take (session.pipe.toCopy bufsize)
  have hcopied := hsound.copied_eq hready bufsize
  unfold Session.recvTurn
  split_ifs with hend
  · have hexpected := hsound.expected_eq
    have hall : session.pipe.toCopy bufsize = session.pipe.buffer.length - session.pipe.m_curPos := by
      simp only [copyToBufdata, advance] at hend
      omega
    obtain hstate | hstate := hstate
    · have hpayload : session.pipe.toReceive.drop (session.pipe.toCopy bufsize) = session.pipe.mRecvPayloadBuffer := by
        simp only [toReceive, hall, AndroidMessagePipe.buffer, hstate]
        rw [← length_drop, List.drop_left]
      have hvalue : (session.pipe.mRecvPayloadBuffer.length : ℤ).bmod (2 ^ 32) =
          session.pipe.mRecvPayloadBuffer.length := bmod_of_lt hsound.recvPayload_lt
      have hsuits := hsound.suits
      simp only [Suits, hstate] at hsuits
      rw [hpayload, ← hcopied] at hflow
      rw [hpayload]
      simp only [switchGuestWaitingState, copyToBufdata, advance, hstate, hvalue]
      split_ifs with hpositive
      · refine ⟨⟨⟨?_, ?_, hsound.sendLength, hsound.recvLength, hsound.sendLength_nonneg, nofun, hsuits.2,
          hsound.sendPayload_lt, hsound.recvPayload_lt⟩, hreceived, ?_⟩, rfl⟩
        · simp only [AndroidMessagePipe.buffer]
          omega
        · simp only [AndroidMessagePipe.buffer]
          omega
        · simp only [toReceive, List.drop_zero]
          exact hflow
      · have hempty : session.pipe.mRecvPayloadBuffer = [] := List.length_eq_zero_iff.mp (by omega)
        rw [hempty] at hflow ⊢
        exact ⟨⟨sound_reset hsound.recvLength, hreceived, hflow⟩, rfl⟩
    · have hpayload : session.pipe.toReceive.drop (session.pipe.toCopy bufsize) = [] := by
        simp only [toReceive, hall, AndroidMessagePipe.buffer, hstate]
        rw [← length_drop, List.drop_length]
      rw [hpayload, ← hcopied] at hflow
      rw [hpayload]
      simp only [switchGuestWaitingState, copyToBufdata, advance, hstate]
      exact ⟨⟨sound_reset hsound.recvLength, hreceived, hflow⟩, rfl⟩
  · obtain ⟨hpart, hrest⟩ := hsound.recvPart hready hend
    refine ⟨⟨hpart, ?_, ?_⟩, hrest⟩
    · have hpending' : (session.pipe.copyToBufdata bufsize).2.pending = [] := by
        obtain hstate | hstate := hstate <;>
          simp only [pending, copyToBufdata, advance, hstate]
      rw [hpending']
      exact hreceived
    · rw [hrest, hcopied]
      exact hflow

/-- A buffer is filled, or the response ends in it. -/
theorem Holds.recvBuffer (hready : session.pipe.readyForGuestToReceive = true) {fuel bufsize : ℕ}
    (hfuel : bufsize < fuel) :
    ∃ after, Session.recvBuffer m_cb fuel bufsize session = some after ∧ after.Holds m_cb ∧
      after.pipe.toReceive = session.pipe.toReceive.drop bufsize := by
  induction fuel generalizing session bufsize with
  | zero => exact absurd hfuel (Nat.not_lt_zero _)
  | succ fuel ih =>
    rw [Session.recvBuffer]
    split_ifs with hempty
    · exact ⟨session, rfl, h, by rw [hempty, List.drop_zero]⟩
    · obtain ⟨hturn, hrest⟩ := h.recvTurn hready bufsize
      have hpos := h.sound.curPos_lt
      have hcount := h.sound.toCopy_eq bufsize
      have hmore {after : Session} (hafter : after.Holds m_cb) (hready : after.pipe.readyForGuestToReceive = true)
          (hrest : after.pipe.toReceive = session.pipe.toReceive.drop (session.pipe.toCopy bufsize)) :
          ∃ last, Session.recvBuffer m_cb fuel (bufsize - session.pipe.toCopy bufsize) after = some last ∧
            last.Holds m_cb ∧ last.pipe.toReceive = session.pipe.toReceive.drop bufsize := by
        have hless : bufsize - session.pipe.toCopy bufsize < fuel := by omega
        have hsum : session.pipe.toCopy bufsize + (bufsize - session.pipe.toCopy bufsize) = bufsize := by omega
        obtain ⟨last, hrecv, hlast, hdrop⟩ := ih hafter hready hless
        refine ⟨last, hrecv, hlast, ?_⟩
        rw [hdrop, hrest, drop_drop, hsum]
      by_cases hend : (session.pipe.copyToBufdata bufsize).2.m_expected = 0
      · have hturned : session.recvTurn m_cb bufsize = _ := if_pos hend
        rw [hturned] at hturn hrest
        simp only [if_pos hend]
        split_ifs with hsend
        · refine ⟨_, rfl, hturn, ?_⟩
          have hdone : ¬(switchGuestWaitingState m_cb _).pipe.toReceive ≠ [] := mt hturn.ready_iff.mpr (by
            rw [hturn.sound.ready, hsend, Bool.not_true]
            exact Bool.false_ne_true)
          rw [not_not, hrest, List.drop_eq_nil_iff] at hdone
          rw [hrest, List.drop_eq_nil_of_le hdone, List.drop_eq_nil_of_le (by omega)]
        · refine hmore hturn ?_ hrest
          rw [hturn.sound.ready, Bool.eq_false_of_not_eq_true hsend, Bool.not_false]
      · have hturned : session.recvTurn m_cb bufsize = _ := if_neg hend
        rw [hturned] at hturn hrest
        simp only [if_neg hend]
        refine hmore hturn ?_ hrest
        obtain ⟨hstate, _⟩ := of_decide_eq_true hready
        exact decide_eq_true ⟨hstate, hturn.sound.expected_pos⟩

end

/-- No buffer after the one in which the response ends has room. -/
def FitsIn : ℕ → List ℕ → Prop
  | _, [] => True
  | left, size :: sizes => (left = 0 → size = 0) ∧ FitsIn (left - size) sizes

instance decidableFitsIn : ∀ left sizes, Decidable (FitsIn left sizes)
  | _, [] => isTrue trivial
  | left, size :: sizes =>
    have := decidableFitsIn (left - size) sizes
    inferInstanceAs (Decidable (_ ∧ _))

theorem Holds.recvEach (h : session.Holds m_cb) {sizes : List ℕ}
    (hfits : FitsIn session.pipe.toReceive.length sizes) :
    ∃ after, Session.recvEach m_cb sizes session = some after ∧ after.Holds m_cb := by
  induction sizes generalizing session with
  | nil => exact ⟨session, rfl, h⟩
  | cons size sizes ih =>
    obtain ⟨hroom, hrest⟩ := hfits
    have hbuffer : ∃ after, Session.recvBuffer m_cb (size + 1) size session = some after ∧ after.Holds m_cb ∧
        after.pipe.toReceive = session.pipe.toReceive.drop size := by
      by_cases hready : session.pipe.readyForGuestToReceive = true
      · exact h.recvBuffer hready (Nat.lt_succ_self size)
      · have hdone := not_not.mp (mt h.ready_iff.mpr hready)
        have hzero := hroom (List.length_eq_zero_iff.mpr hdone)
        rw [hzero, Session.recvBuffer, if_pos rfl]
        exact ⟨session, rfl, h, rfl⟩
    obtain ⟨after, hrecv, hafter, hdrop⟩ := hbuffer
    rw [Session.recvEach, hrecv, Option.bind_some]
    refine ih hafter ?_
    rw [hdrop, length_drop]
    exact hrest

theorem Holds.onGuestRecv (h : session.Holds m_cb) {sizes : List ℕ}
    (hfits : session.pipe.readyForGuestToReceive = true → FitsIn session.pipe.toReceive.length sizes) :
    ∃ result after, session.onGuestRecv m_cb sizes = some (result, after) ∧ after.Holds m_cb := by
  rw [Session.onGuestRecv]
  split_ifs with hready
  · obtain ⟨after, hrecv, hafter⟩ := h.recvEach (hfits hready)
    rw [hrecv]
    exact ⟨_, after, rfl, hafter⟩
  · exact ⟨PIPE_ERROR_AGAIN, session, rfl, h⟩

/-! ### Snapshots -/

theorem stateOfByte_stateToByte (state : GuestWaitingState) :
    stateOfByte (stateToByte state) = some state := by
  cases state <;> rfl

/-- The snapshot holds everything. -/
theorem loadFromStream_onSave {pipe : AndroidMessagePipe} (h : pipe.Sound)
    (hrecv : 0 ≤ toInt32 pipe.mRecvLengthBuffer) :
    loadFromStream pipe.onSave = some pipe := by
  have hsendBytes := putLe32_getLe32 h.sendLength
  have hrecvBytes := putLe32_getLe32 h.recvLength
  have hsendPayload := h.sendPayload_lt
  have hrecvPayload := h.recvPayload_lt
  have hpositive := h.expected_pos
  have hexpected := h.expected_eq
  have hpos := h.curPos_lt
  have hbuffer : pipe.buffer.length < 2 ^ 31 := by
    have hsend := h.sendLength
    have hrecv := h.recvLength
    unfold AndroidMessagePipe.buffer
    split <;> omega
  have hsize : UInt32.size = 2 ^ 32 := rfl
  have hcursor : (UInt32.ofNat pipe.m_curPos).toNat = pipe.m_curPos := UInt32.toNat_ofNat_of_lt' (by omega)
  have hcount : (((UInt32.ofNat (pipe.m_expected % 2 ^ 32).toNat).toNat : ℕ) : ℤ).bmod (2 ^ 32) = pipe.m_expected := by
    rw [UInt32.toNat_ofNat_of_lt' (by omega), bmod_of_lt (by omega)]
    omega
  have hget (value : UInt32) : getBe32 (putBe32 value) = (value, []) := by
    have hrest := getBe32_putBe32 value []
    rwa [append_nil] at hrest
  have hvalid : ¬(toInt32 pipe.mSendLengthBuffer < 0 ∨ toInt32 pipe.mRecvLengthBuffer < 0) := by
    have hsend := h.sendLength_nonneg
    omega
  simp only [onSave, loadFromStream, append_assoc, getBe32_putBe32,
    loadBuffer_saveBuffer _ _ hsendPayload, loadBuffer_saveBuffer _ _ hrecvPayload, getByte_putByte, hget,
    hsendBytes, hrecvBytes, stateOfByte_stateToByte, hcount, hcursor, if_neg hvalid, Option.map_some]

theorem Holds.reload (h : session.Holds m_cb) (hrecv : 0 ≤ toInt32 session.pipe.mRecvLengthBuffer) :
    session.reload = some session := by
  rw [Session.reload, loadFromStream_onSave h.sound hrecv, Option.map_some]

end Session

/-! ## Runs -/

/-- The guest does not offer more room than the response needs, and a snapshot is not taken while the length
of the response has a value that would not be loaded. -/
def Suitable : Label → Session → Prop
  | .onGuestSend _, _ => True
  | .onGuestRecv sizes, session =>
    session.pipe.readyForGuestToReceive = true → Session.FitsIn session.pipe.toReceive.length sizes
  | .reload, session => 0 ≤ toInt32 session.pipe.mRecvLengthBuffer

instance (label : Label) (session : Session) : Decidable (Suitable label session) :=
  match label with
  | .onGuestSend _ => isTrue trivial
  | .onGuestRecv _ => inferInstanceAs (Decidable (_ → _))
  | .reload => inferInstanceAs (Decidable (_ ≤ _))

theorem holds_step {m_cb : List UInt8 → List UInt8 → List UInt8} {session : Session} (hfit : AnswersFit m_cb)
    {label : Label} (h : session.Holds m_cb) (hsuitable : Suitable label session) :
    ∃ after, step m_cb label session = some after ∧ after.Holds m_cb := by
  cases label with
  | onGuestSend buffers =>
    obtain ⟨result, after, hsend, hafter⟩ := h.onGuestSend hfit buffers
    exact ⟨after, by rw [step, hsend, Option.map_some], hafter⟩
  | onGuestRecv sizes =>
    obtain ⟨result, after, hrecv, hafter⟩ := h.onGuestRecv hsuitable
    exact ⟨after, by rw [step, hrecv, Option.map_some], hafter⟩
  | reload => exact ⟨session, h.reload hsuitable, h⟩

theorem holds_new (m_cb : List UInt8 → List UInt8 → List UInt8) {mRecvLengthBuffer : List UInt8}
    (hlength : mRecvLengthBuffer.length = 4) : (Session.new mRecvLengthBuffer).Holds m_cb :=
  ⟨sound_reset hlength, Format.received_nil, rfl⟩

/-- What is promised about a session. -/
structure Session.Correct (m_cb : List UInt8 → List UInt8 → List UInt8) (session : Session) : Prop where
  requests_eq : session.requests = (requestFormat.messages session.accepted).map Prod.snd
  delivered_prefix : session.delivered <+: session.requests.flatMap fun request ↦ putMessage (m_cb request [])

theorem Session.Holds.correct {m_cb : List UInt8 → List UInt8 → List UInt8} {session : Session}
    (h : session.Holds m_cb) : session.Correct m_cb := by
  refine ⟨?_, _, h.flow⟩
  have hmessages := congrArg (List.map Prod.snd) h.received.messages_eq
  rw [List.map_map] at hmessages
  rw [← hmessages]
  exact (List.map_id _).symm

theorem correct_of_suitable {m_cb : List UInt8 → List UInt8 → List UInt8} {mRecvLengthBuffer : List UInt8}
    {labels : List Label} (hfit : AnswersFit m_cb) (hlength : mRecvLengthBuffer.length = 4)
    (hsuitable : Guarded (step m_cb) Suitable (.new mRecvLengthBuffer) labels) :
    ∃ session, run (step m_cb) (.new mRecvLengthBuffer) labels = some session ∧ session.Correct m_cb := by
  have hstep (label : Label) (session : Session) (h : session.Holds m_cb) (hguard : Suitable label session) :=
    holds_step hfit h hguard
  obtain ⟨session, hrun, hholds⟩ := exists_run_of_guarded _ hstep (holds_new m_cb hlength) hsuitable
  exact ⟨session, hrun, hholds.correct⟩

/-- The response is the request. -/
def echo (request _ : List UInt8) : List UInt8 := request

/-- Two requests, an empty one between them, in pieces, with snapshots. -/
def echoed : List Label :=
  [.onGuestSend [[2, 0], [0]], .reload, .onGuestSend [[0, 7], [8, 9]], .onGuestRecv [3, 0], .reload,
    .onGuestRecv [3], .onGuestSend [[0, 0, 0, 0, 1, 0], [0, 0, 5]], .reload, .onGuestRecv [4, 9]]

theorem correct_echoed : ∃ session, run (step echo) (.new [255, 255, 0, 0]) echoed = some session ∧
    session.Correct echo ∧ session.requests = [[7, 8], [5]] ∧
    session.delivered = [2, 0, 0, 0, 7, 8, 1, 0, 0, 0, 5] := by
  have hsuitable : Guarded (step echo) Suitable (.new [255, 255, 0, 0]) echoed := by decide +kernel
  have hlast : (run (step echo) (.new [255, 255, 0, 0]) echoed).any (fun session ↦ session.requests = [[7, 8], [5]] ∧
      session.delivered = [2, 0, 0, 0, 7, 8, 1, 0, 0, 0, 5]) = true := by
    decide +kernel
  obtain ⟨session, hrun, hcorrect⟩ := correct_of_suitable (fun _ ↦ id) rfl hsuitable
  rw [hrun, Option.any_some] at hlast
  exact ⟨session, hrun, hcorrect, of_decide_eq_true hlast⟩

/-- A buffer of one byte after the response: the guest gets a byte that is in no response, and the next
request is not found. -/
theorem room_left : ∃ session,
    run (step echo) (.new [0, 0, 0, 0]) [.onGuestSend [[1, 0, 0, 0, 7]], .onGuestRecv [5, 1],
      .onGuestSend [[1, 0, 0, 0, 9]]] = some session ∧
      session.delivered = [1, 0, 0, 0, 7, 0] ∧ requestFormat.messages session.accepted = [((), [7]), ((), [9])] ∧
      session.requests = [[7]] ∧ ¬session.Correct echo := by
  have hfirst : requestFormat.next [1, 0, 0, 0, 7, 1, 0, 0, 0, 9] = some (some ((), [7]), [1, 0, 0, 0, 9]) := by
    decide +kernel
  have hsecond : requestFormat.next [1, 0, 0, 0, 9] = some (some ((), [9]), []) := by decide +kernel
  have hmessages : requestFormat.messages [1, 0, 0, 0, 7, 1, 0, 0, 0, 9] = [((), [7]), ((), [9])] := by
    rw [Format.messages_of_next hfirst, Format.messages_of_next hsecond, Format.messages_nil]
    rfl
  refine ⟨_, rfl, by decide +kernel, hmessages, by decide +kernel, fun hcorrect ↦ ?_⟩
  have hprefix := hcorrect.delivered_prefix
  revert hprefix
  decide +kernel

end FdeEmugl.MessagePipe

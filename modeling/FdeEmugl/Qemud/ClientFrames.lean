import FdeEmugl.Qemud.Client

/-!
# The frames that a client gets

A call that has bytes behind an empty or malformed frame never returns, and one that has bytes behind the
message with which the client is freed reads the freed client. As long as there is no such call the service
gets the messages of the stream, whatever the pieces.
-/

namespace FdeEmugl.Qemud

open Framing Runs
open Format
open List (append_assoc append_nil cons_ne_nil length_take_of_le nil_append)

/-! ## The grammar -/

/-- An empty frame, or one with a malformed header, stands for itself. -/
def clientFormat : Format UInt8 Unit where
  headerSize := FRAME_HEADER_SIZE
  headerSize_pos := by decide
  kind header := if 0 < hex2int header then some () else none
  length header := (hex2int header).toNat

/-- The messages that the service is to get. -/
def messagesOf (frames : List (List UInt8 × List UInt8)) : List (List UInt8) :=
  frames.filterMap fun frame ↦ (clientFormat.message frame.1 frame.2).map Prod.snd

variable {header : List UInt8}

theorem message_frame (header payload : List UInt8) :
    clientFormat.message header payload = if 0 < hex2int header then some ((), payload) else none := by
  simp only [message, clientFormat]
  split_ifs <;> rfl

theorem messagesOf_append (first second : List (List UInt8 × List UInt8)) :
    messagesOf (first ++ second) = messagesOf first ++ messagesOf second := List.filterMap_append

theorem messagesOf_pos (h : 0 < hex2int header) (payload : List UInt8) :
    messagesOf [(header, payload)] = [payload] := by
  simp only [messagesOf, List.filterMap_cons, message_frame, if_pos h, Option.map_some, List.filterMap_nil]

theorem messagesOf_nonpos (h : ¬0 < hex2int header) (payload : List UInt8) : messagesOf [(header, payload)] = [] := by
  simp only [messagesOf, List.filterMap_cons, message_frame, if_neg h, Option.map_none, List.filterMap_nil]

theorem client_length (header : List UInt8) : clientFormat.frames.length header = (hex2int header).toNat := by
  simp only [Format.frames, clientFormat]

theorem client_next_header (hsize : header.length = FRAME_HEADER_SIZE) (body : List UInt8) :
    clientFormat.frames.next (header ++ body) =
      if clientFormat.frames.length header ≤ body.length then
        some (some (header, body.take (clientFormat.frames.length header)),
          body.drop (clientFormat.frames.length header))
      else none :=
  next_frame hsize body

namespace QemudClient

variable {c : QemudClient}

/-- The bytes of a frame that is not complete. While the payload is read the header is still there. -/
def pending (c : QemudClient) : List UInt8 :=
  if c.need_header then c.header0.take c.header.used else c.header0 ++ c.payload_buff.take c.payload.used

/-- What always holds. -/
structure Sound (c : QemudClient) : Prop where
  framing : c.framing = true
  header_size : c.header.size = FRAME_HEADER_SIZE
  header0_length : c.header0.length = FRAME_HEADER_SIZE

/-- The header is read, and there is room for it. -/
structure NeedsHeader (c : QemudClient) : Prop extends Sound c where
  need_header : c.need_header = true
  used_lt : c.header.used < FRAME_HEADER_SIZE

/-- The payload is read. -/
structure NeedsPayload (c : QemudClient) : Prop extends Sound c where
  need_header : c.need_header = false
  header_used : c.header.used = 0
  length_pos : 0 < hex2int c.header0
  size_eq : c.payload.size = (hex2int c.header0).toNat
  used_lt : c.payload.used < c.payload.size
  buff_length : c.payload_buff.length = c.payload.size + 1

/-- An empty or malformed header has been left in the sink. -/
structure Stale (c : QemudClient) : Prop extends Sound c where
  need_header : c.need_header = true
  used_eq : c.header.used = FRAME_HEADER_SIZE
  nonpos : ¬0 < hex2int c.header0

variable {msg : List UInt8}

theorem NeedsHeader.pending_eq (h : c.NeedsHeader) : c.pending = c.header0.take c.header.used := if_pos h.need_header

theorem NeedsPayload.pending_eq (h : c.NeedsPayload) :
    c.pending = c.header0 ++ c.payload_buff.take c.payload.used := by
  rw [pending, if_neg]
  rw [h.need_header]
  exact Bool.false_ne_true

/-- The header does not become complete. -/
theorem NeedsHeader.readHeader_part (h : c.NeedsHeader) (hpart : c.header.used + msg.length < FRAME_HEADER_SIZE) :
    ∃ after, c.readHeader msg = (.leave, [], after) ∧ after.NeedsHeader ∧ after.pending = c.pending ++ msg ∧
      clientFormat.frames.next (c.pending ++ msg) = none := by
  have hsize := h.header_size
  have hlength := h.header0_length
  have hused := h.used_lt
  have hroom : c.header.size ≤ c.header0.length := by omega
  obtain ⟨filled, hfill, hfilled, htake⟩ :=
    QemudSink.fill_part hroom (hsize.symm ▸ hpart)
  refine ⟨{ c with header := ⟨c.header.used + msg.length, c.header.size⟩, header0 := filled }, ?_, ?_, ?_, ?_⟩
  · simp only [readHeader, h.need_header, if_true, hfill, Bool.not_false]
  · exact ⟨⟨h.framing, hsize, hfilled.trans hlength⟩, h.need_header, hpart⟩
  · rw [h.pending_eq, pending, if_pos h.need_header]
    exact htake
  · refine next_short ?_
    rw [h.pending_eq, List.length_append, length_take_of_le (by omega)]
    exact hpart

/-- The header becomes complete. -/
theorem NeedsHeader.readHeader_whole (h : c.NeedsHeader) (hwhole : FRAME_HEADER_SIZE ≤ c.header.used + msg.length) :
    ∃ header piece rest after, msg = piece ++ rest ∧ c.pending ++ piece = header ∧
      header.length = FRAME_HEADER_SIZE ∧ rest.length < msg.length ∧
      ((¬0 < hex2int header ∧ c.readHeader msg = (.next, rest, after) ∧ after.Stale) ∨
        (0 < hex2int header ∧ c.readHeader msg = (.payload, rest, after) ∧ after.NeedsPayload ∧
          after.pending = header)) := by
  have hsize := h.header_size
  have hlength := h.header0_length
  have hused := h.used_lt
  have hroom : c.header.size ≤ c.header0.length := by omega
  obtain ⟨filled, hfill, hfilled, htake⟩ :=
    QemudSink.fill_whole hroom (hsize.symm ▸ hused) (hsize.symm ▸ hwhole)
  rw [hsize] at hfill htake
  have hmsg : msg = msg.take (FRAME_HEADER_SIZE - c.header.used) ++ msg.drop (FRAME_HEADER_SIZE - c.header.used) :=
    (List.take_append_drop _ msg).symm
  have hless : (msg.drop (FRAME_HEADER_SIZE - c.header.used)).length < msg.length := by
    rw [List.length_drop]
    omega
  rw [← h.pending_eq] at htake
  have hall : filled.take FRAME_HEADER_SIZE = filled := List.take_of_length_le (hfilled.trans hlength).le
  generalize msg.take (FRAME_HEADER_SIZE - c.header.used) = piece at *
  generalize msg.drop (FRAME_HEADER_SIZE - c.header.used) = rest at *
  rw [hall] at htake
  have hheader := hfilled.trans hlength
  simp only [readHeader, h.need_header, if_true, hfill, Bool.not_true, Bool.false_eq_true, if_false, hall]
  by_cases hpos : 0 < hex2int filled
  · have hnotNeg : ¬hex2int filled < 0 := by omega
    rw [if_neg hpos.ne', if_neg hnotNeg]
    refine ⟨filled, piece, rest, _, hmsg, htake.symm, hheader, hless, Or.inr ⟨hpos, rfl, ?_, ?_⟩⟩
    · refine ⟨⟨h.framing, rfl, hheader⟩, rfl, rfl, hpos, rfl, ?_, List.length_replicate⟩
      simp only [QemudSink.reset]
      omega
    · simp only [pending, QemudSink.reset, Bool.false_eq_true, if_false, List.take_zero, append_nil]
  · refine ⟨filled, piece, rest,
      { c with need_header := true, header := ⟨FRAME_HEADER_SIZE, FRAME_HEADER_SIZE⟩, header0 := filled }, hmsg,
      htake.symm, hheader, hless, Or.inl ⟨hpos, ?_, ⟨h.framing, rfl, hheader⟩, rfl, rfl, hpos⟩⟩
    split_ifs with hzero hneg
    · rfl
    · rfl
    · omega

/-- The payload does not become complete. -/
theorem NeedsPayload.readPayload_part (h : c.NeedsPayload) (hpart : c.payload.used + msg.length < c.payload.size) :
    ∃ after, c.readPayload msg = (none, [], after) ∧ after.NeedsPayload ∧ after.pending = c.pending ++ msg ∧
      clientFormat.frames.next (c.pending ++ msg) = none := by
  have hbuff := h.buff_length
  have hused := h.used_lt
  have hroom : c.payload.size ≤ c.payload_buff.length := by omega
  obtain ⟨filled, hfill, hfilled, htake⟩ := QemudSink.fill_part hroom hpart
  have hafter : NeedsPayload
      { c with payload := ⟨c.payload.used + msg.length, c.payload.size⟩, payload_buff := filled } :=
    ⟨⟨h.framing, h.header_size, h.header0_length⟩, h.need_header, h.header_used, h.length_pos, h.size_eq, hpart,
      hfilled.trans hbuff⟩
  refine ⟨_, ?_, hafter, ?_, ?_⟩
  · simp only [readPayload, hfill, Bool.not_false, if_true]
  · rw [hafter.pending_eq, h.pending_eq, htake, append_assoc]
  · rw [h.pending_eq, append_assoc, client_next_header h.header0_length, client_length, ← h.size_eq, if_neg]
    rw [List.length_append, length_take_of_le (by omega)]
    omega

/-- The payload becomes complete. -/
theorem NeedsPayload.readPayload_whole (h : c.NeedsPayload) (hwhole : c.payload.size ≤ c.payload.used + msg.length) :
    ∃ payload rest after, c.readPayload msg = (some payload, rest, after) ∧ rest.length < msg.length ∧
      after.Sound ∧ after.need_header = true ∧ after.header.used = 0 ∧
      ∃ piece, msg = piece ++ rest ∧
        clientFormat.frames.next (c.pending ++ piece) = some (some (c.header0, payload), []) := by
  have hbuff := h.buff_length
  have hused := h.used_lt
  have hroom : c.payload.size ≤ c.payload_buff.length := by omega
  obtain ⟨filled, hfill, hfilled, htake⟩ := QemudSink.fill_whole hroom hused hwhole
  refine ⟨(filled.set c.payload.size 0).take c.payload.size, _,
    { c with
      need_header := true
      payload := ⟨c.payload.size, c.payload.size⟩
      payload_buff := filled.set c.payload.size 0 }, ?_, ?_, ⟨h.framing, h.header_size, h.header0_length⟩,
    rfl, h.header_used, msg.take (c.payload.size - c.payload.used), (List.take_append_drop _ _).symm, ?_⟩
  · simp only [readPayload, hfill, Bool.not_true, Bool.false_eq_true, if_false]
  · rw [List.length_drop]
    omega
  · have hpayload : (filled.set c.payload.size 0).take c.payload.size =
        c.payload_buff.take c.payload.used ++ msg.take (c.payload.size - c.payload.used) := by
      rw [List.take_set_of_le le_rfl, htake]
    have hsize : (c.payload_buff.take c.payload.used ++ msg.take (c.payload.size - c.payload.used)).length =
        c.payload.size := by
      rw [List.length_append, length_take_of_le (by omega), length_take_of_le (by omega)]
      omega
    rw [hpayload, h.pending_eq, append_assoc, client_next_header h.header0_length, client_length, ← h.size_eq,
      if_pos hsize.ge]
    generalize c.payload_buff.take c.payload.used ++ msg.take (c.payload.size - c.payload.used) = payload at *
    rw [← hsize, List.take_length, List.drop_length]

/-- The header that was left fills the sink at once. -/
theorem Stale.readHeader_eq (h : c.Stale) (msg : List UInt8) : c.readHeader msg = (.next, msg, c) := by
  have hdone : c.header.size ≤ c.header.used := by rw [h.header_size, h.used_eq]
  have hall : c.header0.take FRAME_HEADER_SIZE = c.header0 := List.take_of_length_le h.header0_length.le
  have hnonpos := h.nonpos
  rw [readHeader, if_pos h.need_header]
  simp only [QemudSink.fill_done hdone, Bool.not_true, Bool.false_eq_true, if_false, hall]
  split_ifs with hzero hneg
  · rfl
  · rfl
  · omega

end QemudClient

/-! ## The session -/

namespace ClientSession

variable {frees : List (List UInt8) → Bool} {session : ClientSession}

/-- The client is there and takes the next frame. -/
structure Open (session : ClientSession) : Prop where
  client : session.client.NeedsHeader ∨ session.client.NeedsPayload
  freed : session.freed = false
  usedFreed : session.usedFreed = false

/-- The service gets what it is to get from a frame. -/
def after (frees : List (List UInt8) → Bool) (frame : List UInt8 × List UInt8) (client : QemudClient)
    (session : ClientSession) : ClientSession :=
  { session with
    client
    delivered := session.delivered ++ messagesOf [frame]
    freed := messagesOf [frame] ≠ [] ∧ frees (session.delivered ++ messagesOf [frame]) = true }

/-- How a frame leaves the client. -/
def Left (frame : List UInt8 × List UInt8) (client : QemudClient) : Prop :=
  if 0 < hex2int frame.1 then client.NeedsHeader ∧ client.pending = [] else client.Stale

/-- What a turn does with the bytes: it comes to the end of them, or to the end of a frame. -/
def Turns (frees : List (List UInt8) → Bool) (fuel : ℕ) (msg : List UInt8) (session : ClientSession)
    (result : Option ClientSession) : Prop :=
  (∃ client, result = some { session with client } ∧ (client.NeedsHeader ∨ client.NeedsPayload) ∧
      client.pending = session.client.pending ++ msg ∧
      clientFormat.frames.next (session.client.pending ++ msg) = none) ∨
    ∃ frame rest client, clientFormat.frames.next (session.client.pending ++ msg) = some (some frame, rest) ∧
      rest.length < msg.length ∧ result = recvTurns frees fuel rest (session.after frees frame client) ∧
        ((session.after frees frame client).freed = false → Left frame client)

/-- The part of a turn after the header. -/
def payloadTurn (frees : List (List UInt8) → Bool) (fuel : ℕ) (msg : List UInt8) (session : ClientSession) :
    Option ClientSession :=
  let (payload, msg, client) := session.client.readPayload msg
  match payload with
  | none => some { session with client }
  | some payload =>
    let session := clie_recv frees payload { session with client }
    if session.freed then recvTurns frees fuel msg session
    else
      recvTurns frees fuel msg
        { session with client := { session.client with payload := .reset 0, payload_buff := [] } }

variable {msg : List UInt8} {frame : List UInt8 × List UInt8} {client : QemudClient}

theorem payloadTurn_turns (frees : List (List UInt8) → Bool) (session : ClientSession)
    (h : session.client.NeedsPayload) (fuel : ℕ) (msg : List UInt8) :
    Turns frees fuel msg session (payloadTurn frees fuel msg session) := by
  obtain hpart | hwhole := Nat.lt_or_ge (session.client.payload.used + msg.length) session.client.payload.size
  · obtain ⟨client, hread, hclient, hpending, hnone⟩ := h.readPayload_part hpart
    refine Or.inl ⟨client, ?_, Or.inr hclient, hpending, hnone⟩
    rw [payloadTurn, hread]
  · obtain ⟨payload, rest, client, hread, hless, hsound, hneed, hused, piece, rfl, hnext⟩ := h.readPayload_whole hwhole
    have hmore := next_append hnext rest
    rw [append_assoc, nil_append] at hmore
    have hmessages := messagesOf_pos h.length_pos payload
    unfold payloadTurn
    rw [hread]
    simp only [clie_recv]
    by_cases hfreed : frees (session.delivered ++ [payload]) = true
    · refine Or.inr ⟨(session.client.header0, payload), rest, client, hmore, hless, ?_, fun hkept ↦ ?_⟩
      · simp only [after, hmessages, hfreed, ne_eq, not_false_eq_true, and_self, decide_true, if_true,
          cons_ne_nil]
      · simp only [after, hmessages, hfreed, ne_eq, reduceCtorEq, not_false_eq_true, and_self, decide_true,
          cons_ne_nil] at hkept
    · refine Or.inr ⟨(session.client.header0, payload), rest,
        { client with payload := .reset 0, payload_buff := [] }, hmore, hless, ?_, fun _ ↦ ?_⟩
      · have hfalse : frees (session.delivered ++ [payload]) = false := Bool.eq_false_of_not_eq_true hfreed
        simp only [after, hmessages, hfalse, Bool.false_eq_true, if_false, and_false, decide_false]
      · rw [Left, if_pos h.length_pos]
        refine ⟨⟨⟨hsound.framing, hsound.header_size, hsound.header0_length⟩, hneed, ?_⟩, ?_⟩
        · simp only [hused]
          decide
        · simp only [QemudClient.pending, hneed, if_true, hused, List.take_zero]

theorem Open.turns (h : session.Open) (frees : List (List UInt8) → Bool) (fuel : ℕ) (hmsg : msg ≠ []) :
    Turns frees fuel msg session (recvTurns frees (fuel + 1) msg session) := by
  have hfreed : ¬session.freed = true := by
    rw [h.freed]
    exact Bool.false_ne_true
  rw [recvTurns, if_neg hmsg, if_neg hfreed]
  obtain hheader | hpayload := h.client
  · obtain hpart | hwhole := Nat.lt_or_ge (session.client.header.used + msg.length) FRAME_HEADER_SIZE
    · obtain ⟨client, hread, hclient, hpending, hnone⟩ := hheader.readHeader_part hpart
      rw [hread]
      exact Or.inl ⟨client, rfl, Or.inl hclient, hpending, hnone⟩
    · obtain ⟨header, piece, rest, client, rfl, hpiece, hsize, hless, ⟨hpos, hread, hstale⟩ | ⟨hpos, hread, hclient, hpending⟩⟩ :=
        hheader.readHeader_whole hwhole
      · rw [hread]
        have hnext := client_next_header hsize rest
        have hzero : (hex2int header).toNat = 0 := by omega
        rw [client_length, hzero, if_pos (Nat.zero_le _), List.take_zero, List.drop_zero, ← hpiece,
          append_assoc, hpiece] at hnext
        have hmessages := messagesOf_nonpos hpos []
        refine Or.inr ⟨(header, []), rest, client, hnext, hless, ?_, fun _ ↦ ?_⟩
        · simp only [after, hmessages, append_nil, ne_eq, not_true, false_and, decide_false, ← h.freed]
        · rw [Left, if_neg hpos]
          exact hstale
      · rw [hread]
        have hturns := payloadTurn_turns frees { session with client } hclient fuel rest
        rw [Turns, hpending, ← hpiece, append_assoc] at hturns
        obtain ⟨last, hlast, hclient, hpending, hnone⟩ | ⟨frame, more, last, hnext, hmore, hlast, hleft⟩ := hturns
        · exact Or.inl ⟨last, hlast, hclient, hpending, hnone⟩
        · exact Or.inr ⟨frame, more, last, hnext, hmore.trans hless, hlast, hleft⟩
  · have hskip : session.client.readHeader msg = (.payload, msg, session.client) := by
      rw [QemudClient.readHeader, hpayload.need_header, if_neg Bool.false_ne_true]
    rw [hskip]
    exact payloadTurn_turns frees session hpayload fuel msg

/-- With a header that was left and more bytes the loop never ends. -/
theorem recvTurns_stale (frees : List (List UInt8) → Bool) {session : ClientSession}
    (hstale : session.client.Stale) (hfreed : session.freed = false) (hmsg : msg ≠ []) (fuel : ℕ) :
    recvTurns frees fuel msg session = none := by
  induction fuel with
  | zero => rfl
  | succ fuel ih =>
    have hnot : ¬session.freed = true := by
      rw [hfreed]
      exact Bool.false_ne_true
    rw [recvTurns, if_neg hmsg, if_neg hnot, hstale.readHeader_eq]
    exact ih

/-- What ends the turns of a call: a header that is left in the sink, or the end of the client. -/
def Stops (frees : List (List UInt8) → Bool) (delivered : List (List UInt8))
    (first : List (List UInt8 × List UInt8)) (frame : List UInt8 × List UInt8) : Prop :=
  hex2int frame.1 ≤ 0 ∨ frees (delivered ++ messagesOf (first ++ [frame])) = true

theorem stops_cons (delivered : List (List UInt8)) (frame : List UInt8 × List UInt8) :
    (fun first ↦ Stops frees delivered (frame :: first)) = Stops frees (delivered ++ messagesOf [frame]) := by
  funext first other
  rw [Stops, Stops, append_assoc, ← messagesOf_append]
  rfl

/-- How a call leaves the client; `pending` are the bytes that it still holds. -/
structure Kept (pending : List UInt8) (session : ClientSession) : Prop where
  usedFreed : session.usedFreed = false
  client : session.freed = true ∧ session.delivered ≠ [] ∨ session.Open ∧ session.client.pending = pending ∨
    session.freed = false ∧ session.client.Stale ∧ pending = []

theorem Open.next_pending (h : session.Open) : clientFormat.frames.next session.client.pending = none := by
  obtain hheader | hpayload := h.client
  · refine next_short ?_
    rw [hheader.pending_eq]
    exact (List.length_take_le _ _).trans_lt hheader.used_lt
  · have hused := hpayload.used_lt
    rw [hpayload.pending_eq, client_next_header hpayload.header0_length, client_length, ← hpayload.size_eq, if_neg]
    exact not_le.mpr ((List.length_take_le _ _).trans_lt hused)

/-- A frame after which the client goes on. -/
theorem Open.after (h : session.Open) (hfreed : (session.after frees frame client).freed = false)
    (hleft : Left frame client) (hpos : 0 < hex2int frame.1) :
    (session.after frees frame client).Open ∧ client.pending = [] := by
  rw [Left, if_pos hpos] at hleft
  exact ⟨⟨Or.inl hleft.1, hfreed, h.usedFreed⟩, hleft.2⟩

theorem stops_of_freed (h : (session.after frees frame client).freed = true) :
    Stops frees session.delivered [] frame :=
  Or.inr (of_decide_eq_true h).2

theorem not_stops (hfreed : (session.after frees frame client).freed = false) (hpos : 0 < hex2int frame.1) :
    ¬Stops frees session.delivered [] frame := by
  have hmessages := messagesOf_pos hpos frame.2
  rintro (hnonpos | hfrees)
  · omega
  · refine of_decide_eq_false hfreed ⟨?_, hfrees⟩
    rw [hmessages]
    exact cons_ne_nil _ _

/-- A frame at the end of the bytes. -/
theorem Open.kept (h : session.Open) {frame : List UInt8 × List UInt8} {client : QemudClient}
    (hleft : (session.after frees frame client).freed = false → Left frame client) :
    (session.after frees frame client).Kept [] := by
  refine ⟨h.usedFreed, ?_⟩
  cases hfreed : (session.after frees frame client).freed with
  | true =>
    refine Or.inl ⟨rfl, fun hnil ↦ ?_⟩
    exact (of_decide_eq_true hfreed).1 (List.append_eq_nil_iff.mp hnil).2
  | false =>
    right
    by_cases hpos : 0 < hex2int frame.1
    · exact Or.inl (h.after hfreed (hleft hfreed) hpos)
    · have hstale := hleft hfreed
      rw [Left, if_neg hpos] at hstale
      exact Or.inr ⟨rfl, hstale, rfl⟩

/-- If nothing follows a frame that stops the client, the call takes all the bytes and returns. -/
theorem Open.recvTurns (h : session.Open) {fuel : ℕ} {msg : List UInt8} (hfuel : msg.length < fuel)
    (hnothing : clientFormat.NothingAfter (Stops frees session.delivered) (session.client.pending ++ msg)) :
    ∃ last, ClientSession.recvTurns frees fuel msg session = some last ∧ last.accepted = session.accepted ∧
      last.delivered = session.delivered ++ messagesOf (clientFormat.frames.messages (session.client.pending ++ msg)) ∧
      last.Kept (clientFormat.frames.leftover (session.client.pending ++ msg)) := by
  induction fuel generalizing session msg with
  | zero => exact absurd hfuel (Nat.not_lt_zero _)
  | succ fuel ih =>
    by_cases hmsg : msg = []
    · have hnone := h.next_pending
      rw [ClientSession.recvTurns, if_pos hmsg, hmsg, append_nil, messages_of_next_none hnone,
        leftover_of_next_none hnone]
      exact ⟨session, rfl, rfl, (append_nil _).symm, h.usedFreed, Or.inr (Or.inl ⟨h, rfl⟩)⟩
    obtain ⟨client, hlast, hclient, hpending, hnone⟩ | ⟨frame, rest, client, hnext, hless, hlast, hleft⟩ :=
      h.turns frees fuel hmsg
    · rw [hlast, messages_of_next_none hnone, leftover_of_next_none hnone]
      exact ⟨_, rfl, rfl, (append_nil _).symm, h.usedFreed,
        Or.inr (Or.inl ⟨⟨hclient, h.freed, h.usedFreed⟩, hpending⟩)⟩
    · obtain ⟨hstops, hrest⟩ := (nothingAfter_frame hnext).mp hnothing
      rw [stops_cons] at hrest
      rw [hlast, messages_of_next hnext, leftover_of_next hnext, Option.toList_some, messagesOf_append,
        ← append_assoc]
      by_cases hempty : rest = []
      · have hfuel : 0 < fuel := by omega
        obtain ⟨fuel, rfl⟩ := Nat.exists_eq_succ_of_ne_zero hfuel.ne'
        rw [hempty, ClientSession.recvTurns, if_pos rfl, messages_nil, leftover_nil]
        exact ⟨_, rfl, rfl, (append_nil _).symm, h.kept hleft⟩
      · have hgoes : ¬Stops frees session.delivered [] frame := mt hstops hempty
        have hfreed : (session.after frees frame client).freed = false :=
          Bool.eq_false_of_not_eq_true (mt stops_of_freed hgoes)
        have hpos : 0 < hex2int frame.1 := not_le.mp fun hnonpos ↦ hgoes (Or.inl hnonpos)
        obtain ⟨hopen, hpending⟩ := h.after hfreed (hleft hfreed) hpos
        have hshort : rest.length < fuel := by omega
        have hmore := ih hopen hshort
        have hclear : (session.after frees frame client).client.pending ++ rest = rest := by
          change client.pending ++ rest = rest
          rw [hpending, nil_append]
        rw [hclear] at hmore
        exact hmore hrest

/-- Otherwise the call does not return, or it uses the freed client. -/
theorem Open.nothingAfter (h : session.Open) {fuel : ℕ} {msg : List UInt8} {last : ClientSession}
    (hlast : ClientSession.recvTurns frees fuel msg session = some last) :
    last.freed = true ∧ last.usedFreed = true ∨
      clientFormat.NothingAfter (Stops frees session.delivered) (session.client.pending ++ msg) := by
  induction fuel generalizing session msg with
  | zero => cases hlast
  | succ fuel ih =>
    by_cases hmsg : msg = []
    · rw [hmsg, append_nil]
      exact Or.inr (nothingAfter_of_next_none h.next_pending)
    obtain ⟨client, hturn, hclient, hpending, hnone⟩ | ⟨frame, rest, client, hnext, hless, hturn, hleft⟩ :=
      h.turns frees fuel hmsg
    · exact Or.inr (nothingAfter_of_next_none hnone)
    rw [hturn] at hlast
    rw [nothingAfter_frame hnext, stops_cons]
    by_cases hempty : rest = []
    · rw [hempty]
      exact Or.inr ⟨fun _ ↦ rfl, nothingAfter_of_next_none next_nil⟩
    cases hfreed : (session.after frees frame client).freed with
    | true =>
      cases fuel with
      | zero => cases hlast
      | succ fuel =>
        rw [ClientSession.recvTurns, if_neg hempty, if_pos hfreed] at hlast
        cases hlast
        exact Or.inl ⟨hfreed, rfl⟩
    | false =>
      by_cases hpos : 0 < hex2int frame.1
      · obtain ⟨hopen, hpending⟩ := h.after hfreed (hleft hfreed) hpos
        have hmore := ih hopen hlast
        have hclear : (session.after frees frame client).client.pending ++ rest = rest := by
          change client.pending ++ rest = rest
          rw [hpending, nil_append]
        rw [hclear] at hmore
        exact hmore.imp_right fun hrest ↦ ⟨fun hstops ↦ absurd hstops (not_stops hfreed hpos), hrest⟩
      · have hstale := hleft hfreed
        rw [Left, if_neg hpos] at hstale
        rw [recvTurns_stale frees hstale hfreed hempty] at hlast
        cases hlast

/-! ### Calls -/

/-- What holds between the calls. -/
structure Holds (session : ClientSession) : Prop where
  delivered_eq : session.delivered = messagesOf (clientFormat.frames.messages session.accepted)
  kept : session.Kept (clientFormat.frames.leftover session.accepted)

/-- When the header of an empty or malformed frame has been left in the sink, only one whole frame can be taken.
Otherwise no byte of the call may follow such a header, or the frame with which the client is freed. -/
def NothingFollows (frees : List (List UInt8) → Bool) (msg : List UInt8) (session : ClientSession) : Prop :=
  session.freed = true ∨ msg = [] ∨
    if session.client.need_header = true ∧ session.client.header.needed = 0 then
      msg.length > FRAME_HEADER_SIZE ∧ isWholeFrame msg = true
    else clientFormat.NothingAfter (Stops frees session.delivered) (session.client.pending ++ msg)

theorem Holds.more (h : session.Holds) {last : ClientSession} (haccepted : last.accepted = session.accepted ++ msg)
    (hdelivered : last.delivered = session.delivered ++ messagesOf (clientFormat.frames.messages (clientFormat.frames.leftover session.accepted ++ msg)))
    (hkept : last.Kept (clientFormat.frames.leftover (clientFormat.frames.leftover session.accepted ++ msg))) :
    last.Holds := by
  refine ⟨?_, ?_⟩
  · rw [hdelivered, h.delivered_eq, haccepted, messages_append session.accepted msg, messagesOf_append]
  · rw [haccepted, leftover_append]
    exact hkept

end ClientSession

namespace ClientSession

variable {frees : List (List UInt8) → Bool} {session : ClientSession}

/-- The session once the bytes of a call are there. -/
def taking (msg : List UInt8) (session : ClientSession) : ClientSession :=
  { session with accepted := session.accepted ++ msg }

theorem Open.taking (h : session.Open) (msg : List UInt8) : (session.taking msg).Open :=
  ⟨h.client, h.freed, h.usedFreed⟩

/-- The header is not in the sink already. -/
theorem Open.not_left (h : session.Open) :
    ¬(session.client.need_header = true ∧ session.client.header.needed = 0) := by
  rintro ⟨hneed, hnone⟩
  obtain hheader | hpayload := h.client
  · have hsize := hheader.header_size
    have hused := hheader.used_lt
    unfold QemudSink.needed at hnone
    omega
  · rw [hpayload.need_header] at hneed
    exact Bool.false_ne_true hneed

theorem stale_left (hstale : session.client.Stale) :
    session.client.need_header = true ∧ session.client.header.needed = 0 := by
  refine ⟨hstale.need_header, ?_⟩
  rw [QemudSink.needed, hstale.header_size, hstale.used_eq, Nat.sub_self]

theorem Open.recv_eq (h : session.Open) (fuel : ℕ) (msg : List UInt8) : session.qemud_client_recv frees fuel msg =
      ClientSession.recvTurns frees fuel msg (session.taking msg) := by
  have hframing : session.client.framing = true := by
    obtain hheader | hpayload := h.client
    · exact hheader.framing
    · exact hpayload.framing
  have hslow : ¬(msg.length > FRAME_HEADER_SIZE ∧ session.client.need_header ∧ session.client.header.needed = 0 ∧
      isWholeFrame msg) := fun hfast ↦ h.not_left ⟨hfast.2.1, hfast.2.2.1⟩
  simp only [qemud_client_recv, hframing, Bool.not_true, Bool.false_eq_true, if_false, if_neg hslow]
  rfl

theorem stale_recv_eq (hstale : session.client.Stale) (fuel : ℕ) (msg : List UInt8) :
    session.qemud_client_recv frees fuel msg =
      if msg.length > FRAME_HEADER_SIZE ∧ isWholeFrame msg = true then
        some (clie_recv frees (msg.drop FRAME_HEADER_SIZE) (session.taking msg))
      else recvTurns frees fuel msg (session.taking msg) := by
  obtain ⟨hneed, hnone⟩ := stale_left hstale
  simp only [qemud_client_recv, hstale.framing, Bool.not_true, Bool.false_eq_true, if_false, hneed, hnone, true_and]
  rfl

theorem clientStep_eq (hfreed : session.freed = false) (msg : List UInt8) :
    clientStep frees msg session = session.qemud_client_recv frees (msg.length + 1) msg := by
  rw [clientStep, hfreed, if_neg Bool.false_ne_true]

theorem next_of_isWholeFrame {msg : List UInt8} (hlength : msg.length > FRAME_HEADER_SIZE)
    (hwhole : isWholeFrame msg = true) :
    0 < hex2int (msg.take FRAME_HEADER_SIZE) ∧ clientFormat.frames.next msg =
      some (some (msg.take FRAME_HEADER_SIZE, msg.drop FRAME_HEADER_SIZE), []) := by
  obtain ⟨_, hsum⟩ := of_decide_eq_true hwhole
  have hpos : 0 < hex2int (msg.take FRAME_HEADER_SIZE) := by omega
  have hheader : (msg.take FRAME_HEADER_SIZE).length = FRAME_HEADER_SIZE := length_take_of_le hlength.le
  have hnext := client_next_header hheader (msg.drop FRAME_HEADER_SIZE)
  have hall : (hex2int (msg.take FRAME_HEADER_SIZE)).toNat = (msg.drop FRAME_HEADER_SIZE).length := by
    rw [List.length_drop]
    omega
  rw [List.take_append_drop, client_length, hall, if_pos le_rfl, List.take_length, List.drop_length] at hnext
  exact ⟨hpos, hnext⟩

/-- A call under the condition. -/
theorem Holds.step (h : session.Holds) {msg : List UInt8} (hnothing : session.NothingFollows frees msg) :
    ∃ last, clientStep frees msg session = some last ∧ last.Holds ∧
      (session.freed = false → last.accepted = session.accepted ++ msg) := by
  obtain ⟨hfreed, _⟩ | ⟨hopen, hpending⟩ | ⟨hfreed, hstale, hpending⟩ := h.kept.client
  · refine ⟨session, if_pos hfreed, h, fun hthere ↦ ?_⟩
    rw [hfreed] at hthere
    cases hthere
  · have hall : clientFormat.NothingAfter (Stops frees session.delivered) (session.client.pending ++ msg) := by
      obtain hfreed | rfl | hcases := hnothing
      · rw [hopen.freed] at hfreed
        exact absurd hfreed Bool.false_ne_true
      · rw [append_nil]
        exact nothingAfter_of_next_none hopen.next_pending
      · rwa [if_neg hopen.not_left] at hcases
    obtain ⟨last, hlast, haccepted, hdelivered, hkept⟩ := (hopen.taking msg).recvTurns (Nat.lt_succ_self msg.length) hall
    rw [clientStep_eq hopen.freed, hopen.recv_eq]
    refine ⟨last, hlast, h.more haccepted ?_ ?_, fun _ ↦ haccepted⟩
    · rw [← hpending]
      exact hdelivered
    · rw [← hpending]
      exact hkept
  · rw [clientStep_eq hfreed, stale_recv_eq hstale]
    split_ifs with hfast
    · obtain ⟨hpos, hnext⟩ := next_of_isWholeFrame hfast.1 hfast.2
      refine ⟨_, rfl, h.more rfl ?_ ?_, fun _ ↦ rfl⟩
      · rw [hpending, nil_append, messages_of_next hnext, messages_nil, Option.toList_some,
          append_nil, messagesOf_pos hpos]
        rfl
      · rw [hpending, nil_append, leftover_of_next hnext, leftover_nil]
        refine ⟨h.kept.usedFreed, ?_⟩
        cases hlast : frees (session.delivered ++ [msg.drop FRAME_HEADER_SIZE]) with
        | true => exact Or.inl ⟨hlast, List.append_ne_nil_of_right_ne_nil _ (cons_ne_nil _ _)⟩
        | false => exact Or.inr (Or.inr ⟨hlast, hstale, rfl⟩)
    · have hempty : msg = [] := by
        obtain hgone | rfl | hcases := hnothing
        · rw [hfreed] at hgone
          exact absurd hgone Bool.false_ne_true
        · rfl
        · rw [if_pos (stale_left hstale)] at hcases
          exact absurd hcases hfast
      subst hempty
      refine ⟨session.taking [], rfl, h.more rfl ?_ ?_, fun _ ↦ rfl⟩
      · rw [hpending, append_nil, messages_nil]
        exact (append_nil _).symm
      · rw [hpending, append_nil, leftover_nil]
        exact ⟨h.kept.usedFreed, Or.inr (Or.inr ⟨hfreed, hstale, rfl⟩)⟩

/-- A call that does not meet the condition never returns, or it uses the freed client. -/
theorem Holds.nothingFollows (h : session.Holds) {last : ClientSession} {fuel : ℕ} {msg : List UInt8}
    (hreturn : session.qemud_client_recv frees fuel msg = some last) :
    last.freed = true ∧ last.usedFreed = true ∨ session.NothingFollows frees msg := by
  obtain ⟨hfreed, _⟩ | ⟨hopen, hpending⟩ | ⟨hfreed, hstale, hpending⟩ := h.kept.client
  · exact Or.inr (Or.inl hfreed)
  · rw [hopen.recv_eq] at hreturn
    refine ((hopen.taking msg).nothingAfter hreturn).imp_right fun hall ↦ Or.inr (Or.inr ?_)
    rw [if_neg hopen.not_left]
    exact hall
  · rw [stale_recv_eq hstale] at hreturn
    right; right
    by_cases hempty : msg = []
    · exact Or.inl hempty
    · rw [if_pos (stale_left hstale)]
      split_ifs at hreturn with hfast
      · exact Or.inr hfast
      · have htaking : (session.taking msg).client.Stale := hstale
        rw [recvTurns_stale frees htaking hfreed hempty] at hreturn
        cases hreturn

end ClientSession

/-! ## Runs -/

/-- What is promised about a run. -/
structure ClientSession.Correct (session : ClientSession) : Prop where
  delivered_eq : session.delivered = (clientFormat.messages session.accepted).map Prod.snd
  not_used : session.usedFreed = false

theorem messages_map (stream : List UInt8) :
    messagesOf (clientFormat.frames.messages stream) = (clientFormat.messages stream).map Prod.snd := by
  have hframes : clientFormat.messages stream = _ := messages_eq_frames stream
  rw [hframes, List.map_filterMap]
  rfl

theorem ClientSession.Holds.correct {session : ClientSession} (h : session.Holds) : session.Correct :=
  ⟨h.delivered_eq.trans (messages_map session.accepted), h.kept.usedFreed⟩

theorem open_alloc : (ClientSession.alloc true).Open ∧ (ClientSession.alloc true).client.pending = [] :=
  ⟨⟨Or.inl ⟨⟨rfl, rfl, rfl⟩, rfl, Nat.succ_pos 3⟩, rfl, rfl⟩, rfl⟩

theorem holds_alloc : (ClientSession.alloc true).Holds := by
  refine ⟨?_, ?_⟩
  · change [] = messagesOf (clientFormat.frames.messages [])
    rw [messages_nil]
    rfl
  · change ClientSession.Kept (clientFormat.frames.leftover []) _
    rw [leftover_nil]
    exact ⟨rfl, Or.inr (Or.inl open_alloc)⟩

/-- The client stays freed, and what it was used for is not forgotten. -/
theorem usedFreed_run {frees : List (List UInt8) → Bool} {labels : List (List UInt8)} {session last : ClientSession}
    (hfreed : session.freed = true) (hrun : run (clientStep frees) session labels = some last) : last = session := by
  induction labels with
  | nil => exact (Option.some.inj hrun).symm
  | cons msg labels ih =>
    rw [run_cons, clientStep, if_pos hfreed, Option.bind_some] at hrun
    exact ih hrun

/-- Every call returns, the service gets the messages of the stream, and no freed client is used, exactly if
every call meets the condition. -/
theorem correct_iff_nothingFollows (frees : List (List UInt8) → Bool) (labels : List (List UInt8)) :
    (∃ session, run (clientStep frees) (.alloc true) labels = some session ∧ session.Correct) ↔
      Guarded (clientStep frees) (ClientSession.NothingFollows frees) (.alloc true) labels := by
  have hinit := holds_alloc
  generalize ClientSession.alloc true = session at hinit
  constructor
  · rintro ⟨last, hrun, hcorrect⟩
    induction labels generalizing session with
    | nil => trivial
    | cons msg labels ih =>
      obtain ⟨next, hstep, hrest⟩ := Option.bind_eq_some_iff.mp hrun
      have hnothing : next.freed = true ∧ next.usedFreed = true ∨ session.NothingFollows frees msg := by
        cases hfreed : session.freed with
        | true => exact Or.inr (Or.inl hfreed)
        | false =>
          rw [ClientSession.clientStep_eq hfreed] at hstep
          exact hinit.nothingFollows hstep
      obtain ⟨hfreed, hused⟩ | hnothing := hnothing
      · have hlast := usedFreed_run hfreed hrest
        have hnot := hcorrect.not_used
        rw [hlast, hused] at hnot
        cases hnot
      · obtain ⟨next', hstep', hnext, _⟩ := hinit.step hnothing
        rw [hstep] at hstep'
        cases hstep'
        exact (guarded_cons_of_step hstep).mpr ⟨hnothing, ih _ hnext hrest⟩
  · intro hguarded
    have hstep (msg : List UInt8) (session : ClientSession) (h : session.Holds)
        (hnothing : session.NothingFollows frees msg) : ∃ next, clientStep frees msg session = some next ∧ next.Holds := by
      obtain ⟨next, hstep, hnext, _⟩ := h.step hnothing
      exact ⟨next, hstep, hnext⟩
    obtain ⟨last, hrun, hholds⟩ := exists_run_of_guarded ClientSession.Holds hstep hinit hguarded
    exact ⟨last, hrun, hholds.correct⟩

/-- An empty frame and then `0001a` in one call: it never returns. -/
theorem empty_frame_loops :
    (∀ fuel, (ClientSession.alloc true).qemud_client_recv (fun _ ↦ false) fuel [48, 48, 48, 48, 48, 48, 48, 49, 97] =
        none) ∧
      clientFormat.messages [48, 48, 48, 48, 48, 48, 48, 49, 97] = [((), [97])] := by
  constructor
  · intro fuel
    cases fuel with
    | zero => rfl
    | succ fuel =>
      refine ClientSession.recvTurns_stale (fun _ ↦ false) ?_ rfl (cons_ne_nil 48 _) fuel
      exact ⟨⟨rfl, rfl, rfl⟩, rfl, rfl, by decide⟩
  · have hfirst : clientFormat.next [48, 48, 48, 48, 48, 48, 48, 49, 97] = some (none, [48, 48, 48, 49, 97]) := by
      decide +kernel
    have hsecond : clientFormat.next [48, 48, 48, 49, 97] = some (some ((), [97]), []) := by decide +kernel
    rw [Format.messages_of_next hfirst, Format.messages_of_next hsecond, Format.messages_nil]
    rfl

/-- Two frames and an empty one in pieces, and then a whole frame. -/
example : (run (clientStep fun _ ↦ false) (.alloc true)
    [[48, 48], [48, 50, 97], [98, 48, 48, 48, 49, 99, 48], [48, 48, 48], [48, 48, 48, 49, 100]]).any
    (fun session ↦ session.delivered = [[97, 98], [99], [100]]) = true := by
  decide +kernel

/-- Two frames in one call, and the first one disconnects the client: the loop reads a field of it. -/
example : (run (clientStep fun _ ↦ true) (.alloc true) [[48, 48, 48, 49, 97, 48, 48, 48, 49, 98]]).any
    (fun session ↦ session.usedFreed ∧ session.delivered = [[97]]) = true := by
  decide +kernel

end FdeEmugl.Qemud

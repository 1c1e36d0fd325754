import FdeEmugl.Qemud.ClientFrames
import FdeEmugl.Qemud.Send
import FdeEmugl.Qemud.SerialPackets

/-!
# From the sender to the client

The packets of a message are read from the serial line in pieces of any size and put together again by a client
with framing. The guest reads the same bytes from a pipe, whatever buffers it offers and whenever it reads.
-/

namespace FdeEmugl.Qemud

open Framing Runs
open List (append_assoc append_nil flatMap_cons forall_mem_cons length_append length_drop take_append_drop)

/-- What is sent for a message. -/
def content (framing : Bool) (msg : List UInt8) : List UInt8 :=
  if framing then int2hex FRAME_HEADER_SIZE msg.length ++ msg else msg

/-! ## Packets -/

def packet (channel : ℕ) (payload : List UInt8) : List UInt8 := packetHeader channel payload.length ++ payload

variable {channel : ℕ}

/-- The loop cuts the message into packets that fit. -/
theorem serialTurns_packets (channel msglen : ℕ) (msg : List UInt8) :
    ∃ payloads : List (List UInt8), serialTurns channel msglen false msg.length msg = payloads.flatMap (packet channel) ∧
      payloads.flatten = msg ∧ ∀ payload ∈ payloads, 0 < payload.length ∧ payload.length ≤ MAX_SERIAL_PAYLOAD := by
  induction hlength : msg.length using Nat.strong_induction_on generalizing msg with
  | _ len ih =>
    subst hlength
    rw [serialTurns]
    split_ifs with hempty hfalse
    · exact ⟨[], rfl, (List.length_eq_zero_iff.mp hempty).symm, nofun⟩
    · cases hfalse
    · have hmax : MAX_SERIAL_PAYLOAD = 4000 := rfl
      have hcount : (msg.take (min msg.length MAX_SERIAL_PAYLOAD)).length = min msg.length MAX_SERIAL_PAYLOAD :=
        List.length_take_of_le (Nat.min_le_left _ _)
      have hrest : msg.length - min msg.length MAX_SERIAL_PAYLOAD = (msg.drop (min msg.length MAX_SERIAL_PAYLOAD)).length :=
        length_drop.symm
      obtain ⟨payloads, hturns, hflatten, hsizes⟩ := ih _ (by omega) (msg.drop (min msg.length MAX_SERIAL_PAYLOAD)) hrest.symm
      refine ⟨msg.take (min msg.length MAX_SERIAL_PAYLOAD) :: payloads, ?_, ?_, ?_⟩
      · simp only [hturns, flatMap_cons, packet, hcount, append_assoc]
      · rw [List.flatten_cons, hflatten, take_append_drop]
      · intro payload hpayload
        obtain rfl | hpayload := List.mem_cons.mp hpayload
        · rw [hcount]
          omega
        · exact hsizes payload hpayload

theorem qemud_serial_send_packets {channel : ℤ} (hchannel : 0 ≤ channel) (framing : Bool) {msg : List UInt8}
    (hmsg : 0 < msg.length) :
    ∃ payloads : List (List UInt8), qemud_serial_send channel framing msg = payloads.flatMap (packet channel.toNat) ∧
        payloads.flatten = content framing msg ∧
        ∀ payload ∈ payloads, 0 < payload.length ∧ payload.length ≤ MAX_SERIAL_PAYLOAD := by
  have hsend : ¬(msg.length = 0 ∨ channel < 0) := by omega
  rw [qemud_serial_send, if_neg hsend]
  cases framing with
  | false => exact serialTurns_packets channel.toNat msg.length msg
  | true =>
    have hmax : MAX_SERIAL_PAYLOAD = 4000 := rfl
    have hfour : FRAME_HEADER_SIZE = 4 := rfl
    have hlen : ¬msg.length + FRAME_HEADER_SIZE = 0 := by omega
    obtain ⟨count, hcount⟩ : ∃ count, min (msg.length + FRAME_HEADER_SIZE) MAX_SERIAL_PAYLOAD = count + FRAME_HEADER_SIZE :=
      ⟨min (msg.length + FRAME_HEADER_SIZE) MAX_SERIAL_PAYLOAD - FRAME_HEADER_SIZE, by omega⟩
    have hrest : (msg.drop count).length = msg.length - count := length_drop
    obtain ⟨payloads, hturns, hflatten, hsizes⟩ := serialTurns_packets channel.toNat msg.length (msg.drop count)
    rw [hrest] at hturns
    have hfirst : (int2hex FRAME_HEADER_SIZE msg.length ++ msg.take count).length = count + FRAME_HEADER_SIZE := by
      rw [length_append, length_int2hex, List.length_take_of_le (by omega)]
      omega
    refine ⟨(int2hex FRAME_HEADER_SIZE msg.length ++ msg.take count) :: payloads, ?_, ?_, ?_⟩
    · rw [serialTurns, if_pos rfl, if_neg hlen]
      simp only [if_true, hcount, Nat.add_sub_cancel, hturns, flatMap_cons, packet, hfirst, append_assoc]
    · rw [List.flatten_cons, hflatten, append_assoc, take_append_drop]
      rfl
    · intro payload hpayload
      obtain rfl | hpayload := List.mem_cons.mp hpayload
      · rw [hfirst]
        omega
      · exact hsizes payload hpayload

/-! ### The reader -/

section

variable (hchannel : channel < 256)
include hchannel

theorem packetHeader_eq {length : ℕ} (hlength : length < 2 ^ 16) :
    (packetHeader channel length).length = HEADER_SIZE ∧ channelOf (packetHeader channel length) = channel ∧
      lengthOf (packetHeader channel length) = length := by
  refine ⟨?_, ?_, ?_⟩
  · rw [packetHeader, length_append, length_int2hex, length_int2hex]
    rfl
  · have htake : ((packetHeader channel length).drop CHANNEL_OFFSET).take CHANNEL_SIZE = int2hex CHANNEL_SIZE channel := by
      change (int2hex CHANNEL_SIZE channel ++ _).take CHANNEL_SIZE = _
      exact List.take_left' (length_int2hex _ _)
    rw [channelOf, htake]
    exact hex2int_int2hex hchannel
  · have htake : ((packetHeader channel length).drop LENGTH_OFFSET).take LENGTH_SIZE = int2hex LENGTH_SIZE length := by
      have hdrop : (packetHeader channel length).drop LENGTH_OFFSET = int2hex LENGTH_SIZE length :=
        List.drop_left' (length_int2hex _ _)
      rw [hdrop]
      exact List.take_of_length_le (length_int2hex _ _).le
    rw [lengthOf, htake]
    exact hex2int_int2hex hlength

/-- A stream of packets. -/
theorem frames_packets {payloads : List (List UInt8)}
    (hsizes : ∀ payload ∈ payloads, 0 < payload.length ∧ payload.length ≤ MAX_SERIAL_PAYLOAD) :
    serialFormat.frames.messages (payloads.flatMap (packet channel)) =
      payloads.map fun payload ↦ (packetHeader channel payload.length, payload) := by
  induction payloads with
  | nil => exact Format.messages_nil
  | cons payload payloads ih =>
    obtain ⟨⟨hpos, hmax⟩, hrest⟩ := forall_mem_cons.mp hsizes
    have hlength : payload.length < 2 ^ 16 := hmax.trans_lt (by decide)
    obtain ⟨hsize, hchannelOf, hlengthOf⟩ := packetHeader_eq hchannel hlength
    have hwell : WellFormed (packetHeader channel payload.length) := by
      rw [WellFormed, hchannelOf, hlengthOf]
      omega
    have hnext := frames_next_header hsize (payload ++ payloads.flatMap (packet channel))
    rw [serial_length, if_pos hwell, hlengthOf, Int.toNat_natCast, if_pos, List.take_left, List.drop_left,
      ← append_assoc] at hnext
    · rw [flatMap_cons, List.map_cons, packet, Format.messages_of_next hnext, ih hrest]
      rfl
    · rw [length_append]
      exact Nat.le_add_right _ _

theorem packetOf_header {payload : List UInt8} (hpos : 0 < payload.length)
    (hmax : payload.length ≤ MAX_SERIAL_PAYLOAD) :
    ¬Huge (packetHeader channel payload.length) ∧
      packetOf (packetHeader channel payload.length, payload) = some ((channel : ℤ), payload) := by
  obtain ⟨_, hchannelOf, hlengthOf⟩ := packetHeader_eq hchannel (hmax.trans_lt (by decide : MAX_SERIAL_PAYLOAD < 2 ^ 16))
  have hhuge : ¬Huge (packetHeader channel payload.length) := by
    rintro ⟨_, hlong⟩
    rw [hlengthOf] at hlong
    omega
  have hwell : WellFormed (packetHeader channel payload.length) := by
    rw [WellFormed, hchannelOf, hlengthOf]
    omega
  refine ⟨hhuge, ?_⟩
  rw [packetOf_eq, if_pos ⟨hwell, hhuge⟩, hchannelOf]

/-- Every packet is delivered, whatever the pieces in which the bytes come. -/
theorem packets_delivered {payloads : List (List UInt8)}
    (hsizes : ∀ payload ∈ payloads, 0 < payload.length ∧ payload.length ≤ MAX_SERIAL_PAYLOAD)
    {data0 : List UInt8} (hdata : data0.length = MAX_SERIAL_PAYLOAD + 1) {labels : List SerialLabel}
    (hsized : ∀ label ∈ labels, label.Sized) (hbytes : bytesOf labels = payloads.flatMap (packet channel)) :
    ∃ session, run serialStep (.init data0) labels = some session ∧
      session.delivered = payloads.map fun payload ↦ ((channel : ℤ), payload) := by
  obtain ⟨session, hrun, hheard⟩ := heard_run hsized (SerialSession.heard_init hdata)
  rw [List.nil_append, hbytes] at hheard
  have hframes := frames_packets hchannel hsizes
  have hlast : HugeLast (payloads.flatMap (packet channel)) := by
    intro first frame rest hmessages hhuge
    rw [hframes] at hmessages
    have hmem : frame ∈ payloads.map fun payload ↦ (packetHeader channel payload.length, payload) :=
      hmessages ▸ List.mem_append_right first (.head rest)
    obtain ⟨payload, hpayload, rfl⟩ := List.mem_map.mp hmem
    obtain ⟨hpos, hmax⟩ := hsizes payload hpayload
    exact absurd hhuge (packetOf_header hchannel hpos hmax).1
  refine ⟨session, hrun, ?_⟩
  rw [hheard.delivered_iff.mpr hlast, Format.messages_eq_frames]
  change (serialFormat.frames.messages _).filterMap packetOf = _
  rw [hframes, List.filterMap_map]
  refine List.filterMap_eq_map_iff_forall_eq_some.mpr fun payload hpayload ↦ ?_
  obtain ⟨hpos, hmax⟩ := hsizes payload hpayload
  exact (packetOf_header hchannel hpos hmax).2

end

/-! ### The client -/

namespace ClientSession

variable {session : ClientSession}

/-- A client that has got a part of one frame is still open. -/
theorem Holds.open_of_part (h : session.Holds) (hnone : clientFormat.frames.next session.accepted = none) :
    session.Open ∧ session.client.pending = session.accepted ∨ session.accepted = [] := by
  have hdelivered := h.delivered_eq
  have hleftover := Format.leftover_of_next_none hnone
  rw [Format.messages_of_next_none hnone] at hdelivered
  obtain ⟨_, hsome⟩ | ⟨hopen, hpending⟩ | ⟨_, _, hpending⟩ := h.kept.client
  · exact absurd hdelivered hsome
  · exact Or.inl ⟨hopen, hpending.trans hleftover⟩
  · exact Or.inr (hleftover.symm.trans hpending)

/-- The pieces of one frame. -/
theorem Holds.run_pieces (h : session.Holds) (frees : List (List UInt8) → Bool) {frame : List UInt8} {found : List UInt8 × List UInt8}
    (hnext : clientFormat.frames.next frame = some (some found, [])) {pieces : List (List UInt8)}
    (hpieces : ∀ piece ∈ pieces, 0 < piece.length) (hall : session.accepted ++ pieces.flatten = frame)
    (hopen : pieces ≠ [] → session.Open ∧ session.client.pending = session.accepted) :
    ∃ last, run (clientStep frees) session pieces = some last ∧ last.Holds ∧ last.accepted = frame := by
  induction pieces generalizing session with
  | nil =>
    rw [List.flatten_nil, append_nil] at hall
    exact ⟨session, rfl, h, hall⟩
  | cons piece pieces ih =>
    obtain ⟨hfirst, hrest⟩ := forall_mem_cons.mp hpieces
    obtain ⟨hsession, hpending⟩ := hopen (List.cons_ne_nil piece pieces)
    rw [List.flatten_cons, ← append_assoc] at hall
    have hends {other : List UInt8 × List UInt8} {rest : List UInt8}
        (hother : clientFormat.frames.next (session.accepted ++ piece) = some (some other, rest)) :
        rest = [] ∧ pieces.flatten = [] := by
      have hframe := Format.next_append hother pieces.flatten
      rw [hall, hnext] at hframe
      obtain ⟨_, hnil⟩ := Prod.mk.inj (Option.some.inj hframe)
      exact List.append_eq_nil_iff.mp hnil.symm
    have hnothing : session.NothingFollows frees piece := by
      refine Or.inr (Or.inr ?_)
      rw [if_neg hsession.not_left, hpending]
      cases hframe : clientFormat.frames.next (session.accepted ++ piece) with
      | none => exact Format.nothingAfter_of_next_none hframe
      | some result =>
        obtain ⟨found, rest⟩ := result
        obtain ⟨other, rfl⟩ := Format.exists_frame_of_next hframe
        obtain ⟨rfl, _⟩ := hends hframe
        exact (Format.nothingAfter_frame hframe).mpr ⟨fun _ ↦ rfl, Format.nothingAfter_of_next_none Format.next_nil⟩
    obtain ⟨next, hstep, hholds, haccepted⟩ := h.step hnothing
    have htaken := haccepted hsession.freed
    have hopen' : pieces ≠ [] → next.Open ∧ next.client.pending = next.accepted := by
      intro hmore
      have hnone : clientFormat.frames.next next.accepted = none := by
        rw [htaken]
        by_contra hsome
        obtain ⟨⟨found, rest⟩, hframe⟩ := Option.ne_none_iff_exists'.mp hsome
        obtain ⟨other, rfl⟩ := Format.exists_frame_of_next hframe
        obtain ⟨_, hflatten⟩ := hends hframe
        obtain ⟨other, pieces', rfl⟩ := List.exists_cons_of_ne_nil hmore
        obtain ⟨rfl, _⟩ := List.append_eq_nil_iff.mp hflatten
        exact absurd (hrest [] (.head pieces')) (Nat.lt_irrefl 0)
      refine (hholds.open_of_part hnone).resolve_right fun hnil ↦ ?_
      rw [htaken] at hnil
      rw [(List.append_eq_nil_iff.mp hnil).2] at hfirst
      exact Nat.lt_irrefl 0 hfirst
    rw [← htaken] at hall
    obtain ⟨last, hrun, hlast⟩ := ih hholds hrest hall hopen'
    exact ⟨last, by rw [run_cons, hstep, Option.bind_some, hrun], hlast⟩

end ClientSession

variable {msg : QemudPipeMessage} {messages : List QemudPipeMessage}

/-- A framed client gets the message, whatever the pieces of its frame. -/
theorem message_received (frees : List (List UInt8) → Bool) {msg : List UInt8} (hpos : 0 < msg.length)
    (hmsg : msg.length < 2 ^ 16) {pieces : List (List UInt8)} (hpieces : ∀ piece ∈ pieces, 0 < piece.length)
    (hall : pieces.flatten = content true msg) :
    ∃ session, run (clientStep frees) (.alloc true) pieces = some session ∧ session.delivered = [msg] ∧
      session.usedFreed = false := by
  have hsize := length_int2hex FRAME_HEADER_SIZE msg.length
  have hvalue : hex2int (int2hex FRAME_HEADER_SIZE msg.length) = msg.length := hex2int_int2hex hmsg
  have hnext := client_next_header hsize msg
  rw [client_length, hvalue, Int.toNat_natCast, if_pos le_rfl, List.take_length, List.drop_length] at hnext
  obtain ⟨session, hrun, hholds, haccepted⟩ := holds_alloc.run_pieces frees hnext hpieces hall fun _ ↦ open_alloc
  refine ⟨session, hrun, ?_, hholds.kept.usedFreed⟩
  rw [hholds.delivered_eq, haccepted, Format.messages_of_next hnext, Format.messages_nil]
  exact messagesOf_pos (by omega) msg

/-! ## Pipes -/

theorem pipeTurns_pieces (msglen : ℕ) (msg : List UInt8) : (pipeTurns msglen false msg.length msg).flatten = msg ∧
      ∀ message ∈ pipeTurns msglen false msg.length msg, 0 < message.length := by
  induction hlength : msg.length using Nat.strong_induction_on generalizing msg with
  | _ len ih =>
    subst hlength
    rw [pipeTurns]
    split_ifs with hempty hfalse
    · exact ⟨(List.length_eq_zero_iff.mp hempty).symm, nofun⟩
    · cases hfalse
    · have hmax : MAX_SERIAL_PAYLOAD = 4000 := rfl
      have hcount : (msg.take (min msg.length MAX_SERIAL_PAYLOAD)).length = min msg.length MAX_SERIAL_PAYLOAD :=
        List.length_take_of_le (Nat.min_le_left _ _)
      have hrest : (msg.drop (min msg.length MAX_SERIAL_PAYLOAD)).length = msg.length - min msg.length MAX_SERIAL_PAYLOAD :=
        length_drop
      obtain ⟨hflatten, hsizes⟩ := ih _ (by omega) (msg.drop (min msg.length MAX_SERIAL_PAYLOAD)) hrest
      refine ⟨?_, forall_mem_cons.mpr ⟨?_, hsizes⟩⟩
      · rw [List.flatten_cons, hflatten, take_append_drop]
      · rw [hcount]
        omega

theorem _qemud_pipe_send_pieces (framing : Bool) {msg : List UInt8} (hmsg : 0 < msg.length) :
    (_qemud_pipe_send framing msg).flatten = content framing msg ∧
      ∀ message ∈ _qemud_pipe_send framing msg, 0 < message.length := by
  rw [_qemud_pipe_send, if_neg hmsg.ne']
  cases framing with
  | false => exact pipeTurns_pieces msg.length msg
  | true =>
    have hmax : MAX_SERIAL_PAYLOAD = 4000 := rfl
    have hfour : FRAME_HEADER_SIZE = 4 := rfl
    have hlen : ¬msg.length + FRAME_HEADER_SIZE = 0 := by omega
    obtain ⟨count, hcount⟩ : ∃ count, min (msg.length + FRAME_HEADER_SIZE) MAX_SERIAL_PAYLOAD = count + FRAME_HEADER_SIZE :=
      ⟨min (msg.length + FRAME_HEADER_SIZE) MAX_SERIAL_PAYLOAD - FRAME_HEADER_SIZE, by omega⟩
    have hrest : (msg.drop count).length = msg.length - count := length_drop
    obtain ⟨hflatten, hsizes⟩ := pipeTurns_pieces msg.length (msg.drop count)
    rw [hrest] at hflatten hsizes
    rw [pipeTurns, if_pos rfl, if_neg hlen]
    simp only [if_true, hcount, Nat.add_sub_cancel]
    refine ⟨?_, forall_mem_cons.mpr ⟨?_, forall_mem_cons.mpr ⟨?_, hsizes⟩⟩⟩
    · rw [List.flatten_cons, List.flatten_cons, hflatten, take_append_drop]
      rfl
    · rw [length_int2hex]
      omega
    · rw [List.length_take_of_le (by omega)]
      omega

/-- The bytes that are still on the list. -/
def PipeClient.waiting (client : PipeClient) : List UInt8 := client.messages.flatMap QemudPipeMessage.left

theorem left_ne_nil (h : msg.offset < msg.message.length) : 0 < msg.left.length := by
  rw [QemudPipeMessage.left, length_drop]
  omega

/-- What a read gives and leaves. -/
structure Reads (room : ℕ) (messages : List QemudPipeMessage) (bytes : List UInt8) (rest : List QemudPipeMessage) :
    Prop where
  flow : bytes ++ rest.flatMap QemudPipeMessage.left = messages.flatMap QemudPipeMessage.left
  left : ∀ msg ∈ rest, msg.offset < msg.message.length
  room : (messages.flatMap QemudPipeMessage.left).length ≤ room → rest = []

section

variable {room count : ℕ} {rest : List QemudPipeMessage} {bytes : List UInt8}

/-- One message is read to its end. -/
theorem Reads.cons (h : Reads (room - count) messages bytes rest) (hcount : count = msg.left.length) :
    Reads room (msg :: messages) (msg.left.take count ++ bytes) rest := by
  have htake : msg.left.take count = msg.left := by rw [hcount, List.take_length]
  refine ⟨?_, h.left, fun hroom ↦ h.room ?_⟩
  · rw [htake, append_assoc, h.flow, flatMap_cons]
  · rw [flatMap_cons, length_append] at hroom
    omega

/-- A part of a message is read. -/
theorem Reads.part (h : Reads (room - count) ({ msg with offset := msg.offset + count } :: messages) bytes rest)
    (hcount : count ≤ msg.left.length) : Reads room (msg :: messages) (msg.left.take count ++ bytes) rest := by
  have hflow := h.flow
  have hroomLeft := h.room
  have hleft : QemudPipeMessage.left { msg with offset := msg.offset + count } = msg.left.drop count := by
    rw [QemudPipeMessage.left, QemudPipeMessage.left, List.drop_drop]
  rw [flatMap_cons, hleft] at hflow hroomLeft
  refine ⟨?_, h.left, fun hroom ↦ hroomLeft ?_⟩
  · rw [append_assoc, hflow, flatMap_cons, ← append_assoc, take_append_drop]
  · rw [flatMap_cons, length_append] at hroom
    rw [length_append, length_drop]
    omega

end

/-- The buffers are filled one after the other. -/
theorem recvBuffersTurns_eq {fuel : ℕ} {sizes : List ℕ} {off_in_buff : ℕ}
    (hfuel : sizes.length + messages.length < fuel) (hoff : ∀ size ∈ sizes.head?, off_in_buff ≤ size)
    (hmessages : ∀ msg ∈ messages, msg.offset < msg.message.length) :
    ∃ bytes rest, recvBuffersTurns fuel sizes off_in_buff messages = some (bytes, rest) ∧
      Reads (sizes.sum - off_in_buff) messages bytes rest := by
  induction fuel generalizing sizes off_in_buff messages with
  | zero => exact absurd hfuel (Nat.not_lt_zero _)
  | succ fuel ih =>
    match sizes, messages with
    | [], messages =>
      refine ⟨[], messages, rfl, rfl, hmessages, fun hroom ↦ ?_⟩
      cases messages with
      | nil => rfl
      | cons msg messages =>
        have hpos := left_ne_nil (hmessages msg (.head messages))
        rw [flatMap_cons, length_append, List.sum_nil] at hroom
        omega
    | size :: sizes, [] => exact ⟨[], [], rfl, rfl, nofun, fun _ ↦ rfl⟩
    | size :: sizes, msg :: messages =>
      obtain ⟨hfirst, hrest⟩ := forall_mem_cons.mp hmessages
      have hsize := hoff size rfl
      have hleft : msg.left.length = msg.message.length - msg.offset := length_drop
      rw [List.length_cons, List.length_cons] at hfuel
      rw [recvBuffersTurns]
      simp only
      generalize hcopy : min (msg.message.length - msg.offset) (size - off_in_buff) = to_copy
      by_cases hdone : msg.message.length = msg.offset + to_copy
      · rw [if_pos hdone]
        by_cases hfull : off_in_buff + to_copy = size
        · have hshort : sizes.length + messages.length < fuel := by omega
          have hzero : ∀ other ∈ sizes.head?, 0 ≤ other := fun other _ ↦ Nat.zero_le other
          obtain ⟨bytes, rest, hturns, hreads⟩ := ih hshort hzero hrest
          rw [if_pos hfull, hturns]
          refine ⟨_, rest, rfl, Reads.cons ?_ (by omega)⟩
          have hroom : (size :: sizes).sum - off_in_buff - to_copy = sizes.sum - 0 := by
            rw [List.sum_cons]
            omega
          rwa [hroom]
        · have hshort : (size :: sizes).length + messages.length < fuel := by
            rw [List.length_cons]
            omega
          have hbelow : ∀ other ∈ (size :: sizes).head?, off_in_buff + to_copy ≤ other := by
            intro other hother
            cases hother
            omega
          obtain ⟨bytes, rest, hturns, hreads⟩ := ih hshort hbelow hrest
          rw [if_neg hfull, hturns]
          refine ⟨_, rest, rfl, Reads.cons ?_ (by omega)⟩
          rwa [Nat.sub_sub]
      · have hfull : off_in_buff + to_copy = size := by omega
        have hmore : ∀ other ∈ { msg with offset := msg.offset + to_copy } :: messages,
            other.offset < other.message.length := by
          refine forall_mem_cons.mpr ⟨?_, hrest⟩
          simp only
          omega
        have hshort : sizes.length + ({ msg with offset := msg.offset + to_copy } :: messages).length < fuel := by
          rw [List.length_cons]
          omega
        have hzero : ∀ other ∈ sizes.head?, 0 ≤ other := fun other _ ↦ Nat.zero_le other
        obtain ⟨bytes, rest, hturns, hreads⟩ := ih hshort hzero hmore
        rw [if_neg hdone, if_pos hfull, hturns]
        refine ⟨_, rest, rfl, Reads.part ?_ (by omega)⟩
        have hroom : (size :: sizes).sum - off_in_buff - to_copy = sizes.sum - 0 := by
          rw [List.sum_cons]
          omega
        rwa [hroom]

namespace PipeSession

variable {framing : Bool} {session : PipeSession}

/-- The invariant. -/
structure Holds (framing : Bool) (session : PipeSession) : Prop where
  last_msg : session.client.last_msg = decide (session.client.messages ≠ [])
  messages : ∀ msg ∈ session.client.messages, msg.offset < msg.message.length
  sending : ∀ message ∈ session.sending, 0 < message.length
  flow : session.delivered ++ session.client.waiting ++ session.sending.flatten =
    session.sent.flatMap (content framing)

/-- A read returns. With room for everything it leaves nothing. -/
theorem Holds.recvBuffers (h : session.Holds framing) (sizes : List ℕ) :
    ∃ after, pipeStep framing (.recvBuffers sizes) session = some after ∧ after.Holds framing ∧
      (session.client.waiting.length ≤ sizes.sum → after.client.messages = []) := by
  obtain ⟨hlast, hmessages, hsending, hflow⟩ := h
  by_cases hempty : session.client.messages = []
  · refine ⟨session, ?_, ⟨hlast, hmessages, hsending, hflow⟩, fun _ ↦ hempty⟩
    rw [pipeStep, _qemudPipe_recvBuffers, if_pos hempty, Option.map_some]
    simp only [append_nil]
  · have hzero : ∀ other ∈ sizes.head?, 0 ≤ other := fun other _ ↦ Nat.zero_le other
    obtain ⟨bytes, rest, hturns, hreads⟩ :=
      recvBuffersTurns_eq (Nat.lt_succ_self (sizes.length + session.client.messages.length)) hzero hmessages
    rw [pipeStep, _qemudPipe_recvBuffers, if_neg hempty, hturns]
    refine ⟨_, rfl, ⟨?_, hreads.left, hsending, ?_⟩, fun hroom ↦ hreads.room hroom⟩
    · simp only [hlast, hempty, ne_eq, not_false_eq_true, decide_true]
      by_cases hrest : rest = []
      · simp [hrest]
      · simp [hrest]
    · change session.delivered ++ bytes ++ rest.flatMap QemudPipeMessage.left ++ _ = _
      rw [append_assoc session.delivered, hreads.flow]
      exact hflow

theorem Holds.append (h : session.Holds framing) {message : List UInt8} {sending : List (List UInt8)}
    (hsending : session.sending = message :: sending) :
    Holds framing { session with client := _qemud_pipe_append_msg session.client message, sending } := by
  obtain ⟨hlast, hmessages, hpieces, hflow⟩ := h
  rw [hsending] at hpieces hflow
  obtain ⟨hpos, hrest⟩ := forall_mem_cons.mp hpieces
  have hclient : _qemud_pipe_append_msg session.client message = ⟨session.client.messages ++ [⟨message, 0⟩], true⟩ := by
    unfold _qemud_pipe_append_msg
    by_cases hempty : session.client.messages = []
    · simp [hlast, hempty]
    · simp [hlast, hempty]
  rw [hclient]
  refine ⟨by simp, fun msg hmsg ↦ ?_, hrest, ?_⟩
  · obtain hmsg | hmsg := List.mem_append.mp hmsg
    · exact hmessages msg hmsg
    · obtain rfl := List.mem_singleton.mp hmsg
      exact hpos
  · rw [← hflow, List.flatten_cons, PipeClient.waiting, PipeClient.waiting, List.flatMap_append, List.flatMap_singleton,
      QemudPipeMessage.left, List.drop_zero, ← append_assoc, ← append_assoc]

theorem Holds.send (h : session.Holds framing) (hidle : session.sending = []) {msg : List UInt8}
    (hmsg : 0 < msg.length) :
    Holds framing { session with sending := _qemud_pipe_send framing msg, sent := session.sent ++ [msg] } := by
  obtain ⟨hflatten, hpieces⟩ := _qemud_pipe_send_pieces framing hmsg
  have hflow := h.flow
  rw [hidle, List.flatten_nil, append_nil] at hflow
  refine ⟨h.last_msg, h.messages, hpieces, ?_⟩
  rw [hflatten, List.flatMap_append, List.flatMap_singleton, ← hflow]

/-- What is promised of a pipe: the guest reads what was sent, and it can read all of it. -/
structure Delivers (framing : Bool) (session : PipeSession) : Prop where
  prefix_sent : session.delivered <+: session.sent.flatMap (content framing)
  complete : session.sending = [] → session.client.messages = [] →
    session.delivered = session.sent.flatMap (content framing)
  returns : ∀ sizes, ∃ after, pipeStep framing (.recvBuffers sizes) session = some after ∧
    (session.client.waiting.length ≤ sizes.sum → after.client.messages = [])

theorem Holds.delivers (h : session.Holds framing) : session.Delivers framing := by
  refine ⟨⟨session.client.waiting ++ session.sending.flatten, ?_⟩, fun hsending hmessages ↦ ?_, fun sizes ↦ ?_⟩
  · rw [← append_assoc]
    exact h.flow
  · have hflow := h.flow
    rw [hsending, PipeClient.waiting, hmessages, List.flatMap_nil, append_nil, List.flatten_nil, append_nil] at hflow
    exact hflow
  · obtain ⟨after, hstep, _, hroom⟩ := h.recvBuffers sizes
    exact ⟨after, hstep, hroom⟩

end PipeSession

/-- A message has between 1 and 65535 bytes. -/
def PipeLabel.Fits : PipeLabel → Prop
  | .send msg => 1 ≤ msg.length ∧ msg.length ≤ 65535
  | _ => True

theorem pipe_delivers {framing : Bool} {labels : List PipeLabel} (hfits : ∀ label ∈ labels, label.Fits)
    {session : PipeSession} (hrun : run (pipeStep framing) .new labels = some session) : session.Delivers framing := by
  have hinit : PipeSession.new.Holds framing := ⟨rfl, nofun, nofun, rfl⟩
  have hstep (label : PipeLabel) (session after : PipeSession) (h : session.Holds framing) (hlabel : label.Fits)
      (hnext : pipeStep framing label session = some after) : after.Holds framing := by
    cases label with
    | send msg =>
      obtain ⟨hidle, hsome⟩ := Option.ite_none_right_eq_some.mp hnext
      cases hsome
      exact h.send hidle hlabel.1
    | append =>
      rw [pipeStep] at hnext
      split at hnext
      · cases hnext
      · rename_i message sending hsending
        cases hnext
        exact h.append hsending
    | recvBuffers sizes =>
      obtain ⟨last, hlast, hholds, _⟩ := h.recvBuffers sizes
      rw [hnext] at hlast
      cases hlast
      exact hholds
  exact (invariant_of_guarded (PipeSession.Holds framing) hstep hinit (guarded_of_mem _ hfits) hrun).delivers

/-! ## The round trip -/

/-- The packets of a message are delivered on its channel, a framed client gets the message once, and the guest
reads the same bytes from a pipe. -/
theorem round_trip {channel : ℤ} (hlow : 1 ≤ channel) (hhigh : channel ≤ 255) (framing : Bool) {msg : List UInt8}
    (hpos : 1 ≤ msg.length) (hmsg : msg.length ≤ 65535) :
    ∃ payloads : List (List UInt8),
      qemud_serial_send channel framing msg = payloads.flatMap (packet channel.toNat) ∧
        (∀ payload ∈ payloads, payload.length ≤ MAX_SERIAL_PAYLOAD) ∧ payloads.flatten = content framing msg ∧
        (∀ data0 labels, data0.length = MAX_SERIAL_PAYLOAD + 1 → (∀ label ∈ labels, label.Sized) →
          bytesOf labels = qemud_serial_send channel framing msg →
            ∃ session, run serialStep (.init data0) labels = some session ∧
              session.delivered = payloads.map fun payload ↦ (channel, payload)) ∧
        (framing = true → ∀ frees, ∃ session, run (clientStep frees) (.alloc true) payloads = some session ∧
          session.delivered = [msg] ∧ session.usedFreed = false) ∧
        ∀ labels session, (∀ label ∈ labels, label.Fits) → run (pipeStep framing) .new labels = some session →
          session.Delivers framing := by
  obtain ⟨payloads, hsend, hflatten, hsizes⟩ := qemud_serial_send_packets (by omega : 0 ≤ channel) framing hpos
  refine ⟨payloads, hsend, fun payload hpayload ↦ (hsizes payload hpayload).2, hflatten, ?_, ?_, ?_⟩
  · intro data0 labels hdata hsized hbytes
    have hchannel : channel.toNat < 256 := by omega
    obtain ⟨session, hrun, hdelivered⟩ := packets_delivered hchannel hsizes hdata hsized (hbytes.trans hsend)
    refine ⟨session, hrun, ?_⟩
    rw [hdelivered, Int.toNat_of_nonneg (by omega)]
  · rintro rfl frees
    have hpieces : ∀ payload ∈ payloads, 0 < payload.length := fun payload hpayload ↦ (hsizes payload hpayload).1
    exact message_received frees hpos (Nat.lt_succ_of_le hmsg) hpieces hflatten
  · intro labels session hfits hrun
    exact pipe_delivers hfits hrun

/-- Its frame fills one packet and one byte of the next. -/
def longMessage : List UInt8 := List.replicate 3997 97

theorem round_trip_longMessage : ∃ payloads session last,
    run serialStep (.init (List.replicate 4001 0))
        [.read ((qemud_serial_send 1 true longMessage).take 7), .read ((qemud_serial_send 1 true longMessage).drop 7)] =
      some session ∧
      (session.delivered = payloads.map fun payload ↦ (1, payload)) ∧ payloads.flatten = content true longMessage ∧
      run (clientStep fun _ ↦ false) (.alloc true) payloads = some last ∧ last.delivered = [longMessage] := by
  have hlength : longMessage.length = 3997 := List.length_replicate
  obtain ⟨payloads, _, _, hflatten, hserial, hclient, _⟩ :=
    round_trip (by decide : (1 : ℤ) ≤ 1) (by decide) true (by omega : 1 ≤ longMessage.length) (by omega)
  have hsized : ∀ label ∈ [SerialLabel.read ((qemud_serial_send 1 true longMessage).take 7),
      .read ((qemud_serial_send 1 true longMessage).drop 7)], label.Sized := by
    simp only [forall_mem_cons, SerialLabel.Sized, List.not_mem_nil, false_imp_iff, implies_true, and_self]
  have hbytes : bytesOf [.read ((qemud_serial_send 1 true longMessage).take 7),
      .read ((qemud_serial_send 1 true longMessage).drop 7)] = qemud_serial_send 1 true longMessage := by
    simp only [bytesOf, flatMap_cons, List.flatMap_nil, append_nil, take_append_drop]
  obtain ⟨session, hrun, hdelivered⟩ := hserial _ _ List.length_replicate hsized hbytes
  obtain ⟨last, hlast, hmessage, _⟩ := hclient rfl fun _ ↦ false
  exact ⟨payloads, session, last, hrun, hdelivered, hflatten, hlast, hmessage⟩

end FdeEmugl.Qemud

import FdeEmugl.Qemud.Multiplexer
import FdeEmugl.Qemud.RoundTrip

/-!
# Snapshots of the clients of qemud

A serial client and the client of a pipe are saved with their service, their framing and, for the pipe, the
messages that the guest has not read to their end. A new client is connected when they are loaded. How much of a
header has been received is not saved, so that a client comes back as it was exactly if its header sink is empty.
-/

namespace FdeEmugl.Qemud

open Framing Overwrite Runs FdeEmugl.Stream
open List (append_assoc cons_ne_nil forall_mem_cons length_append nil_append)
open Option (bind_some isSome_iff_exists map_some)

/-! ## Services -/

/-- The services of the emulator that loads. A service may refuse a client; if it takes it, it sets its framing.
Its client may fail to load what `clie_save` has written. An empty parameter stands for none. -/
structure QemudServices where
  names : List (List UInt8)
  serv_connect : List UInt8 → ℤ → List UInt8 → Option Bool
  clie_load : List UInt8 → List UInt8 → Option (List UInt8)

def QemudServices.qemud_service_find (services : QemudServices) (service_name : List UInt8) : Bool :=
  services.names.any fun name ↦ name = service_name

def qemud_service_save_name (name : List UInt8) : List UInt8 := stream_put_be32 (name.length + 1) ++ (name ++ [0])

/-- The name is a C string: it ends at its first zero. -/
def qemud_service_load_name (stream : List UInt8) : Option (List UInt8 × List UInt8) :=
  let (name_len, stream) := stream_get_be32 stream
  let (service_name, stream) := Stream.read name_len.toNat stream
  if (service_name.length : ℤ) ≠ name_len then none
  else if service_name.getLast? ≠ some 0 then none
  else some (service_name.takeWhile (· ≠ 0), stream)

/-- A client, the service that it belongs to and its parameter. -/
structure ConnectedClient where
  service : List UInt8
  param : List UInt8
  client : QemudClient
deriving DecidableEq

/-! ## Framing -/

namespace QemudClient

def saveFraming (c : QemudClient) : List UInt8 :=
  if c.framing then
    stream_put_be32 1 ++ (stream_put_be32 (if c.need_header then 1 else 0) ++ (stream_put_be32 FRAME_HEADER_SIZE ++
      (c.header0.take FRAME_HEADER_SIZE ++ (c.payload.save ++ c.payload_buff.take c.payload.size))))
  else stream_put_be32 0

/-- `junk` is what the byte behind the payload holds. -/
def loadFraming (c : QemudClient) (junk : UInt8) (stream : List UInt8) : Option (QemudClient × List UInt8) :=
  let (framing, stream) := stream_get_be32 stream
  if framing = 0 then some ({ c with framing := false }, stream)
  else
    let (need_header, stream) := stream_get_be32 stream
    let (header_size, stream) := stream_get_be32 stream
    if header_size > FRAME_HEADER_SIZE then none
    else
      let (header, stream) := Stream.read header_size.toNat stream
      if (header.length : ℤ) ≠ header_size then none
      else
        let (payload, stream) := QemudSink.load stream
        let (buff, stream) := Stream.read payload.size stream
        if buff.length ≠ payload.size then none
        else
          some ({ c with
            framing := true
            need_header := need_header ≠ 0
            header0 := overwrite c.header0 0 header
            payload
            payload_buff := buff ++ [junk] }, stream)

end QemudClient

/-! ## Serial clients -/

/-- `clie_state` is what `clie_save` writes. -/
def qemud_serial_client_save (channel : ℤ) (clie_state : List UInt8) (c : ConnectedClient) : List UInt8 :=
  qemud_service_save_name c.service ++ (putString c.param ++ (stream_put_be32 channel ++
    (clie_state ++ c.client.saveFraming)))

def qemud_serial_client_load (services : QemudServices) (junk : UInt8) (stream : List UInt8) :
    Option (ℤ × ConnectedClient × List UInt8) :=
  (qemud_service_load_name stream).bind fun (service, stream) ↦
    let (param, stream) := getString stream
    if !services.qemud_service_find service then none
    else
      let (channel, stream) := stream_get_be32 stream
      if channel = 0 then none
      else
        (services.serv_connect service channel param).bind fun framing ↦
          (services.clie_load service stream).bind fun stream ↦
            (QemudClient.loadFraming (.alloc framing) junk stream).map fun (client, stream) ↦
              (channel, ⟨service, param, client⟩, stream)

/-! ## Pipes -/

def _save_pipe_message (msg : QemudPipeMessage) : List UInt8 :=
  stream_put_be32 msg.message.length ++ (stream_put_be32 msg.offset ++ msg.message)

/-- The turns of the loop of `_load_pipe_message`, each of which takes a byte at least. Bytes that a short read
does not deliver are shown as zeros. -/
def loadMessageTurns : ℕ → List UInt8 → Option (List QemudPipeMessage × List UInt8)
  | 0, _ => none
  | fuel + 1, stream =>
    let (size, stream) := getBe32 stream
    if size = 0 then some ([], stream)
    else
      let (offset, stream) := getBe32 stream
      let (message, stream) := Stream.read size.toNat stream
      let msg : QemudPipeMessage := ⟨message ++ List.replicate (size.toNat - message.length) 0, offset.toNat⟩
      (loadMessageTurns fuel stream).map fun (messages, stream) ↦ (msg :: messages, stream)

/-- The list of messages and its last one. -/
def _load_pipe_message (stream : List UInt8) : Option (PipeClient × List UInt8) :=
  (loadMessageTurns (stream.length + 1) stream).map fun (messages, stream) ↦
    (⟨messages, messages ≠ []⟩, stream)

def _qemudPipe_save (clie_state : List UInt8) (pipe : PipeClient) (c : ConnectedClient) : List UInt8 :=
  qemud_service_save_name c.service ++ (putString c.param ++ (pipe.messages.flatMap _save_pipe_message ++
    (stream_put_be32 0 ++ (clie_state ++ c.client.saveFraming))))

def _qemudPipe_load (services : QemudServices) (junk : UInt8) (stream : List UInt8) :
    Option (PipeClient × ConnectedClient × List UInt8) :=
  (qemud_service_load_name stream).bind fun (service, stream) ↦
    if !services.qemud_service_find service then none
    else
      let (param, stream) := getString stream
      (services.serv_connect service (-1) param).bind fun framing ↦
        (_load_pipe_message stream).bind fun (pipe, stream) ↦
          (services.clie_load service stream).bind fun stream ↦
            (QemudClient.loadFraming (.alloc framing) junk stream).map fun (client, stream) ↦
              (pipe, ⟨service, param, client⟩, stream)

/-! ## What is saved is loaded -/

theorem load_save_name {name : List UInt8} (hname : 0 ∉ name) (hlength : name.length + 1 < 2 ^ 31)
    (rest : List UInt8) : qemud_service_load_name (qemud_service_save_name name ++ rest) = some (name, rest) := by
  have hint := stream_get_be32_put_be32 (name.length + 1) (by omega) (by omega) (name ++ [0] ++ rest)
  have hnat : ((name.length : ℤ) + 1).toNat = (name ++ [0]).length := by
    rw [length_append, List.length_singleton]
    omega
  have hall : (((name ++ [0]).length : ℕ) : ℤ) = name.length + 1 := by
    rw [length_append, List.length_singleton, Nat.cast_add, Nat.cast_one]
  have hterminated : (name ++ [0]).takeWhile (· ≠ 0) = name := by
    have hchars : ∀ c ∈ name, decide (c ≠ 0) = true := fun c hc ↦ decide_eq_true fun hzero ↦ hname (hzero ▸ hc)
    rw [List.takeWhile_append_of_pos hchars, List.takeWhile_cons_of_neg (by decide), List.append_nil]
  unfold qemud_service_load_name qemud_service_save_name
  rw [append_assoc, hint]
  simp only [Stream.read, hnat, List.take_left, List.drop_left, hall, hterminated, List.getLast?_append,
    List.getLast?_singleton, ne_eq, not_true_eq_false, if_false]
  rfl

namespace QemudClient

/-- A client that can be saved: its payload is in its buffer and its sizes are those of frames. -/
structure Saveable (c : QemudClient) : Prop extends Sound c where
  used_le : c.payload.used ≤ c.payload.size
  size_lt : c.payload.size < 2 ^ 16
  size_le : c.payload.size ≤ c.payload_buff.length

/-- The client that is loaded. -/
def reloaded (c : QemudClient) (junk : UInt8) : QemudClient :=
  { c with header := .reset FRAME_HEADER_SIZE, payload_buff := c.payload_buff.take c.payload.size ++ [junk] }

theorem Saveable.load_save {c : QemudClient} (h : c.Saveable) (framing : Bool) (junk : UInt8) (rest : List UInt8) :
    loadFraming (.alloc framing) junk (c.saveFraming ++ rest) = some (c.reloaded junk, rest) := by
  have hused := h.used_le
  have hsize := h.size_lt
  have hone := stream_get_be32_put_be32 1 (by decide) (by decide)
  have hneed := stream_get_be32_put_be32 (if c.need_header then 1 else 0) (by split_ifs <;> decide)
    (by split_ifs <;> decide)
  have hfour := stream_get_be32_put_be32 FRAME_HEADER_SIZE (by decide) (by decide)
  have hsink := QemudSink.load_save c.payload (by omega) (by omega)
  have hheader : c.header0.take FRAME_HEADER_SIZE = c.header0 := List.take_of_length_le h.header0_length.le
  have hbuff : (c.payload_buff.take c.payload.size).length = c.payload.size := List.length_take_of_le h.size_le
  have hflag : decide ((if c.need_header then (1 : ℤ) else 0) ≠ 0) = c.need_header := by
    cases c.need_header <;> rfl
  have hover : overwrite (List.replicate FRAME_HEADER_SIZE 0) 0 c.header0 = c.header0 := by
    refine overwrite_full ?_
    rw [Nat.zero_add, h.header0_length, List.length_replicate]
  have hheaderSize : c.header0.length = (FRAME_HEADER_SIZE : ℤ).toNat := h.header0_length
  have htake (more : List UInt8) : (c.header0 ++ more).take (FRAME_HEADER_SIZE : ℤ).toNat = c.header0 :=
    List.take_left' hheaderSize
  have hdrop (more : List UInt8) : (c.header0 ++ more).drop (FRAME_HEADER_SIZE : ℤ).toNat = more :=
    List.drop_left' hheaderSize
  have htakeBuff : (c.payload_buff.take c.payload.size ++ rest).take c.payload.size =
      c.payload_buff.take c.payload.size := List.take_left' hbuff
  have hdropBuff : (c.payload_buff.take c.payload.size ++ rest).drop c.payload.size = rest := List.drop_left' hbuff
  unfold loadFraming saveFraming
  rw [h.framing, if_pos rfl]
  simp only [append_assoc, hone, hneed, hfour, Stream.read, hheader, htake, hdrop, hsink, htakeBuff, hdropBuff,
    hbuff, h.header0_length, hflag, alloc, hover, gt_iff_lt, lt_irrefl, ne_eq, not_true_eq_false, one_ne_zero,
    if_false]
  rw [reloaded, ← h.framing]

end QemudClient

/-- The messages of a pipe are loaded in their order. -/
theorem load_save_messages {messages : List QemudPipeMessage}
    (hmessages : ∀ msg ∈ messages, msg.offset < msg.message.length ∧ msg.message.length < 2 ^ 32) (rest : List UInt8)
    {fuel : ℕ} (hfuel : messages.length < fuel) :
    loadMessageTurns fuel (messages.flatMap _save_pipe_message ++ (stream_put_be32 0 ++ rest)) =
      some (messages, rest) := by
  induction messages generalizing fuel with
  | nil =>
    obtain ⟨fuel, rfl⟩ := Nat.exists_eq_add_one_of_ne_zero (Nat.ne_of_gt hfuel)
    rw [List.flatMap_nil, nil_append, loadMessageTurns, stream_put_be32, getBe32_putBe32]
    rfl
  | cons msg messages ih =>
    obtain ⟨fuel, rfl⟩ := Nat.exists_eq_add_one_of_ne_zero (Nat.ne_of_gt (Nat.zero_lt_of_lt hfuel))
    obtain ⟨⟨hoffset, hsize⟩, hrest⟩ := forall_mem_cons.mp hmessages
    rw [List.length_cons] at hfuel
    have hmore := ih hrest (Nat.lt_of_add_lt_add_right hfuel)
    have hlength : (UInt32.ofNat ((msg.message.length : ℤ) % 2 ^ 32).toNat).toNat = msg.message.length := by
      have hmod : ((msg.message.length : ℤ) % 2 ^ 32).toNat = msg.message.length := by omega
      rw [hmod]
      exact UInt32.toNat_ofNat_of_lt' hsize
    have hposition : (UInt32.ofNat ((msg.offset : ℤ) % 2 ^ 32).toNat).toNat = msg.offset := by
      have hmod : ((msg.offset : ℤ) % 2 ^ 32).toNat = msg.offset := by omega
      rw [hmod]
      exact UInt32.toNat_ofNat_of_lt' (hoffset.trans hsize)
    have hnonzero : UInt32.ofNat ((msg.message.length : ℤ) % 2 ^ 32).toNat ≠ 0 := by
      intro hzero
      rw [hzero] at hlength
      change 0 = msg.message.length at hlength
      omega
    rw [List.flatMap_cons, _save_pipe_message, loadMessageTurns, stream_put_be32, stream_put_be32]
    simp only [append_assoc, getBe32_putBe32, if_neg hnonzero, hlength, hposition, Stream.read, List.take_left,
      List.drop_left, hmore, Nat.sub_self, List.replicate_zero, List.append_nil, map_some]

theorem length_messages_le (messages : List QemudPipeMessage) :
    messages.length ≤ (messages.flatMap _save_pipe_message).length := by
  induction messages with
  | nil => exact Nat.le_refl 0
  | cons msg messages ih =>
    have hfour : (stream_put_be32 msg.message.length).length = 4 := rfl
    rw [List.flatMap_cons, length_append, List.length_cons, _save_pipe_message, length_append, hfour]
    omega

/-! ## Pipes that are saved -/

/-- A message that the guest has not read to its end, of a size that is cut from what is sent. -/
def QemudPipeMessage.Waiting (msg : QemudPipeMessage) : Prop :=
  msg.offset < msg.message.length ∧ msg.message.length ≤ MAX_SERIAL_PAYLOAD

theorem pipeTurns_sizes (msglen : ℕ) (framing : Bool) (len : ℕ) (msg : List UInt8) :
    ∀ message ∈ pipeTurns msglen framing len msg, message.length ≤ MAX_SERIAL_PAYLOAD := by
  induction len using Nat.strong_induction_on generalizing framing msg with
  | _ len ih =>
    have hmax : MAX_SERIAL_PAYLOAD = 4000 := rfl
    have hfour : FRAME_HEADER_SIZE = 4 := rfl
    have htake (count : ℕ) (hcount : count ≤ MAX_SERIAL_PAYLOAD) : (msg.take count).length ≤ MAX_SERIAL_PAYLOAD :=
      (List.length_take_le count msg).trans hcount
    rw [pipeTurns]
    split_ifs with hzero hframing
    · exact fun message hmessage ↦ absurd hmessage List.not_mem_nil
    · refine forall_mem_cons.mpr ⟨?_, forall_mem_cons.mpr ⟨htake _ (by omega), ih _ (by omega) _ _⟩⟩
      rw [length_int2hex]
      decide
    · exact forall_mem_cons.mpr ⟨htake _ (by omega), ih _ (by omega) _ _⟩

theorem _qemud_pipe_send_sizes (framing : Bool) (msg : List UInt8) :
    ∀ message ∈ _qemud_pipe_send framing msg, 0 < message.length ∧ message.length ≤ MAX_SERIAL_PAYLOAD := by
  intro message hmessage
  have hmsg : msg.length ≠ 0 := by
    intro hzero
    rw [_qemud_pipe_send, if_pos hzero] at hmessage
    cases hmessage
  refine ⟨(_qemud_pipe_send_pieces framing (Nat.pos_of_ne_zero hmsg)).2 message hmessage, ?_⟩
  rw [_qemud_pipe_send, if_neg hmsg] at hmessage
  exact pipeTurns_sizes _ _ _ _ message hmessage

/-- What a read leaves are messages that were there. -/
theorem recvBuffersTurns_message {fuel : ℕ} {sizes : List ℕ} {off_in_buff : ℕ} {messages rest : List QemudPipeMessage}
    {bytes : List UInt8} (h : recvBuffersTurns fuel sizes off_in_buff messages = some (bytes, rest)) :
    ∀ msg ∈ rest, msg.message ∈ messages.map QemudPipeMessage.message := by
  induction fuel generalizing sizes off_in_buff messages bytes with
  | zero => cases h
  | succ fuel ih =>
    match sizes, messages with
    | [], messages =>
      cases h
      exact fun msg hmsg ↦ List.mem_map_of_mem hmsg
    | size :: sizes, [] =>
      obtain ⟨_, rfl⟩ := Prod.mk.inj (Option.some.inj h)
      exact fun msg hmsg ↦ absurd hmsg List.not_mem_nil
    | size :: sizes, first :: messages =>
      rw [recvBuffersTurns] at h
      simp only at h
      generalize min (first.message.length - first.offset) (size - off_in_buff) = to_copy at h
      obtain ⟨⟨more, rest'⟩, hmore, heq⟩ := Option.map_eq_some_iff.mp h
      obtain ⟨_, rfl⟩ := Prod.mk.inj heq
      have hsub : ∀ msg ∈ rest', msg.message ∈
          (if first.message.length = first.offset + to_copy then messages
            else { first with offset := first.offset + to_copy } :: messages).map QemudPipeMessage.message := by
        split_ifs at hmore ⊢ <;> exact ih hmore
      intro msg hmsg
      have hmem := hsub msg hmsg
      split_ifs at hmem
      · exact List.mem_cons_of_mem _ hmem
      · exact hmem

namespace PipeSession

variable {session : PipeSession}

/-- The invariant. -/
structure Pending (session : PipeSession) : Prop where
  last_msg : session.client.last_msg = decide (session.client.messages ≠ [])
  messages : ∀ msg ∈ session.client.messages, msg.Waiting
  sending : ∀ message ∈ session.sending, 0 < message.length ∧ message.length ≤ MAX_SERIAL_PAYLOAD

theorem Pending.append (h : session.Pending) {message : List UInt8} {sending : List (List UInt8)}
    (hsending : session.sending = message :: sending) :
    Pending { session with client := _qemud_pipe_append_msg session.client message, sending } := by
  obtain ⟨hlast, hmessages, hpieces⟩ := h
  rw [hsending] at hpieces
  obtain ⟨hpiece, hrest⟩ := forall_mem_cons.mp hpieces
  unfold _qemud_pipe_append_msg
  split_ifs with hthere
  · refine ⟨by simp [hthere], fun msg hmsg ↦ ?_, hrest⟩
    obtain hmsg | hmsg := List.mem_append.mp hmsg
    · exact hmessages msg hmsg
    · obtain rfl := List.mem_singleton.mp hmsg
      exact hpiece
  · refine ⟨rfl, fun msg hmsg ↦ ?_, hrest⟩
    obtain rfl := List.mem_singleton.mp hmsg
    exact hpiece

theorem Pending.recvBuffers (h : session.Pending) {sizes : List ℕ} {result : ℤ} {bytes : List UInt8}
    {client : PipeClient} (hread : _qemudPipe_recvBuffers session.client sizes = some (result, bytes, client))
    (delivered : List UInt8) : Pending { session with client, delivered } := by
  rw [_qemudPipe_recvBuffers] at hread
  split_ifs at hread with hempty
  · obtain ⟨_, hclient⟩ := Prod.mk.inj (Option.some.inj hread)
    obtain ⟨_, rfl⟩ := Prod.mk.inj hclient
    exact ⟨h.last_msg, h.messages, h.sending⟩
  · have hzero : ∀ other ∈ sizes.head?, 0 ≤ other := fun other _ ↦ Nat.zero_le other
    have hpositions : ∀ msg ∈ session.client.messages, msg.offset < msg.message.length :=
      fun msg hmsg ↦ (h.messages msg hmsg).1
    obtain ⟨read, rest, hturns, hreads⟩ :=
      recvBuffersTurns_eq (Nat.lt_succ_self (sizes.length + session.client.messages.length)) hzero hpositions
    rw [hturns, map_some] at hread
    obtain ⟨_, hclient⟩ := Prod.mk.inj (Option.some.inj hread)
    obtain ⟨_, rfl⟩ := Prod.mk.inj hclient
    refine ⟨?_, fun msg hmsg ↦ ⟨hreads.left msg hmsg, ?_⟩, h.sending⟩
    · have hlast := h.last_msg
      rw [decide_eq_true hempty] at hlast
      by_cases hrest : rest = []
      · simp [hrest]
      · simp [hrest, hlast]
    · obtain ⟨other, hother, hsame⟩ := List.mem_map.mp (recvBuffersTurns_message hturns msg hmsg)
      rw [← hsame]
      exact (h.messages other hother).2

theorem pending_step {framing : Bool} (label : PipeLabel) (session after : PipeSession) (h : session.Pending)
    (hnext : pipeStep framing label session = some after) : after.Pending := by
  cases label with
  | send msg =>
    obtain ⟨_, hsome⟩ := Option.ite_none_right_eq_some.mp hnext
    cases hsome
    exact ⟨h.last_msg, h.messages, _qemud_pipe_send_sizes framing msg⟩
  | append =>
    rw [pipeStep] at hnext
    split at hnext
    · cases hnext
    · rename_i message sending hsending
      cases hnext
      exact h.append hsending
  | recvBuffers sizes =>
    obtain ⟨⟨result, bytes, client⟩, hread, rfl⟩ := Option.map_eq_some_iff.mp hnext
    exact h.recvBuffers hread _

theorem pending_new : PipeSession.new.Pending :=
  ⟨rfl, fun _ hmsg ↦ absurd hmsg List.not_mem_nil, fun _ hmessage ↦ absurd hmessage List.not_mem_nil⟩

/-- The messages of a pipe client are as they were after the loading. -/
theorem Pending.load_save (h : session.Pending) (rest : List UInt8) : _load_pipe_message
        (session.client.messages.flatMap _save_pipe_message ++ (stream_put_be32 0 ++ rest)) =
      some (session.client, rest) := by
  have hmessages : ∀ msg ∈ session.client.messages, msg.offset < msg.message.length ∧ msg.message.length < 2 ^ 32 :=
    fun msg hmsg ↦ ⟨(h.messages msg hmsg).1, (h.messages msg hmsg).2.trans_lt (by decide)⟩
  have hfuel := length_messages_le session.client.messages
  unfold _load_pipe_message
  rw [load_save_messages hmessages rest (by rw [length_append]; omega), map_some]
  simp only [← h.last_msg]

end PipeSession

/-! ## Clients that are saved -/

theorem QemudSink.fill_sizes (ss : QemudSink) (buff msg : List UInt8) :
    (ss.fill buff msg).2.1.size = ss.size ∧ (ss.used ≤ ss.size → (ss.fill buff msg).2.1.used ≤ ss.size) ∧
      (ss.size ≤ buff.length → (ss.fill buff msg).2.2.1.length = buff.length) := by
  unfold fill
  split_ifs with hfull
  · exact ⟨rfl, id, fun _ ↦ rfl⟩
  · refine ⟨rfl, fun hused ↦ ?_, fun hsize ↦ length_overwrite ?_⟩
    · simp only
      omega
    · rw [List.length_take]
      omega

namespace QemudClient

variable {c : QemudClient}

theorem Saveable.readHeader (h : c.Saveable) (msg : List UInt8) : (c.readHeader msg).2.2.Saveable := by
  have hroom : c.header.size ≤ c.header0.length := (h.header_size.trans h.header0_length.symm).le
  obtain ⟨hsize, _, hlength⟩ := c.header.fill_sizes c.header0 msg
  have hheader := hsize.trans h.header_size
  have hheader0 := (hlength hroom).trans h.header0_length
  unfold QemudClient.readHeader
  generalize c.header.fill c.header0 msg = filled at hheader hheader0
  obtain ⟨full, header, header0, rest⟩ := filled
  have hdigits : (header0.take FRAME_HEADER_SIZE).length ≤ 4 := List.length_take_le _ _
  have hlt := (hex2int_lt (header0.take FRAME_HEADER_SIZE)).2.trans_le (pow_le_pow_right₀ (by decide) hdigits)
  simp only
  split_ifs with hneed
  · exact ⟨⟨h.framing, hheader, hheader0⟩, h.used_le, h.size_lt, h.size_le⟩
  · exact ⟨⟨h.framing, hheader, hheader0⟩, h.used_le, h.size_lt, h.size_le⟩
  · exact ⟨⟨h.framing, hheader, hheader0⟩, h.used_le, h.size_lt, h.size_le⟩
  · refine ⟨⟨h.framing, hheader, hheader0⟩, Nat.zero_le _, ?_, ?_⟩
    · simp only [QemudSink.reset]
      omega
    · rw [List.length_replicate]
      exact Nat.le_succ _
  · exact h

theorem Saveable.readPayload (h : c.Saveable) (msg : List UInt8) : (c.readPayload msg).2.2.Saveable := by
  obtain ⟨hsize, hused, hlength⟩ := c.payload.fill_sizes c.payload_buff msg
  have husedLe := hused h.used_le
  have hbuff := hlength h.size_le
  have hsizeLt := h.size_lt
  have hsizeLe := h.size_le
  unfold QemudClient.readPayload
  generalize c.payload.fill c.payload_buff msg = filled at hsize husedLe hbuff
  obtain ⟨full, payload, payload_buff, rest⟩ := filled
  simp only at hsize husedLe hbuff ⊢
  split_ifs
  · exact ⟨⟨h.framing, h.header_size, h.header0_length⟩, hsize ▸ husedLe, hsize ▸ hsizeLt, by simp only; omega⟩
  · refine ⟨⟨h.framing, h.header_size, h.header0_length⟩, hsize ▸ husedLe, hsize ▸ hsizeLt, ?_⟩
    simp only [List.length_set]
    omega

end QemudClient

namespace ClientSession

variable {frees : List (List UInt8) → Bool} {session last : ClientSession}

theorem saveable_recvTurns {fuel : ℕ} {msg : List UInt8} (h : session.client.Saveable)
    (hturns : recvTurns frees fuel msg session = some last) : last.client.Saveable := by
  induction fuel generalizing session msg with
  | zero => cases hturns
  | succ fuel ih =>
    rw [recvTurns] at hturns
    split_ifs at hturns
    · cases hturns
      exact h
    · cases hturns
      exact h
    · have hread := h.readHeader msg
      generalize session.client.readHeader msg = result at hturns hread
      obtain ⟨turn, rest, client⟩ := result
      cases turn with
      | leave =>
        cases hturns
        exact hread
      | next =>
        have hclient : ({ session with client } : ClientSession).client.Saveable := hread
        exact ih hclient hturns
      | payload =>
        have hpayload := hread.readPayload rest
        simp only at hturns hpayload
        generalize client.readPayload rest = result at hturns hpayload
        obtain ⟨payload, more, after⟩ := result
        cases payload with
        | none =>
          cases hturns
          exact hpayload
        | some payload =>
          simp only at hturns
          split_ifs at hturns
          · exact ih hpayload hturns
          · exact ih ⟨⟨hpayload.framing, hpayload.header_size, hpayload.header0_length⟩, Nat.le_refl 0,
              Nat.two_pow_pos 16, Nat.le_refl 0⟩ hturns

theorem saveable_step (msg : List UInt8) (session next : ClientSession) (h : session.client.Saveable)
    (hstep : clientStep frees msg session = some next) : next.client.Saveable := by
  rw [clientStep, qemud_client_recv] at hstep
  split_ifs at hstep
  · cases hstep
    exact h
  · cases hstep
    exact h
  · cases hstep
    exact h
  · have htaking : (session.taking msg).client.Saveable := h
    exact saveable_recvTurns htaking hstep

theorem saveable_alloc : (ClientSession.alloc true).client.Saveable :=
  ⟨⟨rfl, rfl, rfl⟩, Nat.le_refl 0, by decide, Nat.le_refl 0⟩

/-- As long as the client is not freed, every call that returns was in order. -/
theorem holds_step (msg : List UInt8) (session next : ClientSession) (h : session.freed = true ∨ session.Holds)
    (hstep : clientStep frees msg session = some next) : next.freed = true ∨ next.Holds := by
  cases hfreed : session.freed with
  | true =>
    rw [clientStep, if_pos hfreed] at hstep
    exact Option.some.inj hstep ▸ h
  | false =>
    have hholds : session.Holds := h.resolve_left fun hgone ↦ by
      rw [hfreed] at hgone
      exact Bool.false_ne_true hgone
    have hrecv : session.qemud_client_recv frees (msg.length + 1) msg = some next :=
      (clientStep_eq hfreed msg).symm.trans hstep
    obtain ⟨hgone, _⟩ | hnothing := hholds.nothingFollows hrecv
    · exact Or.inl hgone
    · obtain ⟨next', hstep', hnext, _⟩ := hholds.step hnothing
      cases hstep.symm.trans hstep'
      exact Or.inr hnext

/-- The invariant. -/
structure Keeps (session : ClientSession) : Prop where
  saveable : session.client.Saveable
  holds : session.freed = true ∨ session.Holds

theorem keeps_step (msg : List UInt8) (session next : ClientSession) (h : session.Keeps)
    (hstep : clientStep frees msg session = some next) : next.Keeps :=
  ⟨saveable_step msg session next h.saveable hstep, holds_step msg session next h.holds hstep⟩

/-- What is known of a client that can be saved. -/
structure Live (session : ClientSession) : Prop where
  saveable : session.client.Saveable
  client : session.Open ∨ session.client.Stale
  freed : session.freed = false
  usedFreed : session.usedFreed = false

theorem live_of_run {inputs : List (List UInt8)} (hrun : run (clientStep frees) (.alloc true) inputs = some session)
    (hfreed : session.freed = false) : session.Live := by
  obtain ⟨hsaveable, hkept⟩ := invariant_of_run keeps_step ⟨saveable_alloc, Or.inr holds_alloc⟩ hrun
  rw [hfreed] at hkept
  have hholds := hkept.resolve_left Bool.false_ne_true
  obtain ⟨hgone, _⟩ | ⟨hopen, _⟩ | ⟨_, hstale, _⟩ := hholds.kept.client
  · rw [hfreed] at hgone
    exact absurd hgone Bool.false_ne_true
  · exact ⟨hsaveable, Or.inl hopen, hfreed, hholds.kept.usedFreed⟩
  · exact ⟨hsaveable, Or.inr hstale, hfreed, hholds.kept.usedFreed⟩

/-! ## Clients that go on alike -/

/-- Two sessions in which the same has happened and will happen. -/
structure Alike (session other : ClientSession) : Prop where
  delivered : session.delivered = other.delivered
  freed : session.freed = other.freed
  client : session.freed = true ∨
    session.Open ∧ other.Open ∧ session.client.pending = other.client.pending ∨
      session.client.Stale ∧ other.client.Stale

variable {other : ClientSession}

/-- A frame leaves both as it leaves one. -/
theorem Open.alike_after (h : session.Open) (hother : other.Open) (hdelivered : session.delivered = other.delivered)
    {frame : List UInt8 × List UInt8} {client client' : QemudClient}
    (hleft : (session.after frees frame client).freed = false → Left frame client)
    (hleft' : (other.after frees frame client').freed = false → Left frame client') :
    (session.after frees frame client).Alike (other.after frees frame client') := by
  have hsame : (session.after frees frame client).freed = (other.after frees frame client').freed := by
    simp only [ClientSession.after, hdelivered]
  refine ⟨congrArg (· ++ messagesOf [frame]) hdelivered, hsame, ?_⟩
  cases hfreed : (session.after frees frame client).freed with
  | true => exact Or.inl rfl
  | false =>
    right
    have hfreed' := hsame.symm.trans hfreed
    by_cases hpos : 0 < hex2int frame.1
    · obtain ⟨hopen, hpending⟩ := h.after hfreed (hleft hfreed) hpos
      obtain ⟨hopen', hpending'⟩ := hother.after hfreed' (hleft' hfreed') hpos
      exact Or.inl ⟨hopen, hopen', hpending.trans hpending'.symm⟩
    · have hstale := hleft hfreed
      have hstale' := hleft' hfreed'
      rw [Left, if_neg hpos] at hstale hstale'
      exact Or.inr ⟨hstale, hstale'⟩

theorem alike_recvTurns {fuel : ℕ} {msg : List UInt8} (h : session.Alike other) :
    Option.Rel Alike (recvTurns frees fuel msg session) (recvTurns frees fuel msg other) := by
  induction fuel generalizing session other msg with
  | zero => exact .none
  | succ fuel ih =>
    by_cases hmsg : msg = []
    · rw [recvTurns, recvTurns, if_pos hmsg, if_pos hmsg]
      exact .some h
    cases hfreed : session.freed with
    | true =>
      rw [recvTurns, recvTurns, if_neg hmsg, if_neg hmsg, if_pos hfreed, if_pos (h.freed ▸ hfreed)]
      exact .some ⟨h.delivered, h.freed, Or.inl hfreed⟩
    | false =>
      have hthere := h.client
      rw [hfreed] at hthere
      obtain ⟨hopen, hopen', hpending⟩ | ⟨hstale, hstale'⟩ := hthere.resolve_left Bool.false_ne_true
      · obtain ⟨client, hturn, hclient, hkept, hnone⟩ | ⟨frame, rest, client, hnext, hless, hturn, hleft⟩ :=
          hopen.turns frees fuel hmsg
        · obtain ⟨client', hturn', hclient', hkept', _⟩ | ⟨frame, rest, client', hnext, _⟩ :=
            hopen'.turns frees fuel hmsg
          · rw [hturn, hturn']
            refine .some ⟨h.delivered, h.freed, Or.inr (Or.inl ⟨⟨hclient, hopen.freed, hopen.usedFreed⟩,
              ⟨hclient', hopen'.freed, hopen'.usedFreed⟩, ?_⟩)⟩
            exact hkept.trans ((congrArg (· ++ msg) hpending).trans hkept'.symm)
          · rw [← hpending, hnone] at hnext
            cases hnext
        · obtain ⟨client', _, _, _, hnone⟩ | ⟨frame', rest', client', hnext', _, hturn', hleft'⟩ :=
            hopen'.turns frees fuel hmsg
          · rw [← hpending, hnext] at hnone
            cases hnone
          · rw [← hpending, hnext] at hnext'
            obtain ⟨hframe, rfl⟩ := Prod.mk.inj (Option.some.inj hnext')
            cases hframe
            rw [hturn, hturn']
            exact ih (hopen.alike_after hopen' h.delivered hleft hleft')
      · rw [recvTurns_stale frees hstale hfreed hmsg, recvTurns_stale frees hstale' (h.freed ▸ hfreed) hmsg]
        exact .none

theorem alike_step (msg : List UInt8) (session other : ClientSession) (h : session.Alike other) :
    Option.Rel Alike (clientStep frees msg session) (clientStep frees msg other) := by
  cases hfreed : session.freed with
  | true =>
    rw [clientStep, clientStep, if_pos hfreed, if_pos (h.freed ▸ hfreed)]
    exact .some h
  | false =>
    have htaking : (session.taking msg).Alike (other.taking msg) := by
      refine ⟨h.delivered, h.freed, h.client.imp_right ?_⟩
      rintro (⟨hopen, hopen', hpending⟩ | hstale)
      · exact Or.inl ⟨hopen.taking msg, hopen'.taking msg, hpending⟩
      · exact Or.inr hstale
    have hthere := h.client
    rw [hfreed] at hthere
    rw [clientStep_eq hfreed, clientStep_eq (h.freed ▸ hfreed)]
    obtain ⟨hopen, hopen', _⟩ | ⟨hstale, hstale'⟩ := hthere.resolve_left Bool.false_ne_true
    · rw [hopen.recv_eq, hopen'.recv_eq]
      exact alike_recvTurns htaking
    · rw [stale_recv_eq hstale, stale_recv_eq hstale']
      split_ifs
      · refine .some ⟨?_, ?_, Or.inr (Or.inr ⟨hstale, hstale'⟩)⟩
        · exact congrArg (· ++ [msg.drop FRAME_HEADER_SIZE]) h.delivered
        · exact congrArg (fun delivered ↦ frees (delivered ++ [msg.drop FRAME_HEADER_SIZE])) h.delivered
      · exact alike_recvTurns htaking

/-- The service gets the same frames from both, whatever comes. -/
def SameFrames (frees : List (List UInt8) → Bool) (session other : ClientSession) : Prop :=
  ∀ inputs, (run (clientStep frees) session inputs).map ClientSession.delivered =
    (run (clientStep frees) other inputs).map ClientSession.delivered

theorem Alike.sameFrames (h : session.Alike other) : session.SameFrames frees other := by
  intro inputs
  have hruns : Option.Rel Alike (run (clientStep frees) session inputs) (run (clientStep frees) other inputs) :=
    rel_run alike_step h inputs
  generalize run (clientStep frees) session inputs = last at hruns ⊢
  generalize run (clientStep frees) other inputs = last' at hruns ⊢
  cases hruns with
  | some hlast => exact congrArg some hlast.delivered
  | none => rfl

/-! ## Clients that are loaded -/

/-- The session goes on with the client that is loaded. -/
def reloaded (junk : UInt8) (session : ClientSession) : ClientSession :=
  { session with client := session.client.reloaded junk }

theorem Open.reloaded (h : session.Open) (hsaveable : session.client.Saveable) (junk : UInt8) :
    (session.reloaded junk).Open ∧
      (session.client.header.used = 0 → session.client.pending = (session.reloaded junk).client.pending) ∧
      (session.client.NeedsHeader → (session.reloaded junk).client.pending = []) := by
  obtain hheader | hpayload := h.client
  · have hclient : (session.client.reloaded junk).NeedsHeader :=
      ⟨⟨hheader.framing, rfl, hheader.header0_length⟩, hheader.need_header, Nat.succ_pos 3⟩
    have hnone : (session.client.reloaded junk).pending = [] := hclient.pending_eq
    refine ⟨⟨Or.inl hclient, h.freed, h.usedFreed⟩, fun hused ↦ ?_, fun _ ↦ hnone⟩
    rw [hheader.pending_eq, hused]
    exact hnone.symm
  · have hlength : (session.client.payload_buff.take session.client.payload.size ++ [junk]).length =
        session.client.payload.size + 1 := by
      rw [length_append, List.length_take_of_le hsaveable.size_le, List.length_singleton]
    have hclient : (session.client.reloaded junk).NeedsPayload :=
      ⟨⟨hpayload.framing, rfl, hpayload.header0_length⟩, hpayload.need_header, rfl, hpayload.length_pos,
        hpayload.size_eq, hpayload.used_lt, hlength⟩
    refine ⟨⟨Or.inr hclient, h.freed, h.usedFreed⟩, fun _ ↦ ?_, fun hheader ↦ ?_⟩
    · have hshort : session.client.payload.used ≤
          (session.client.payload_buff.take session.client.payload.size).length := by
        rw [List.length_take_of_le hsaveable.size_le]
        exact hsaveable.used_le
      refine hpayload.pending_eq.trans (Eq.trans ?_ hclient.pending_eq.symm)
      change _ = session.client.header0 ++
        (session.client.payload_buff.take session.client.payload.size ++ [junk]).take session.client.payload.used
      rw [List.take_append_of_le_length hshort, List.take_take, Nat.min_eq_left hsaveable.used_le]
    · exact absurd (hpayload.need_header.symm.trans hheader.need_header) Bool.false_ne_true

theorem Live.alike (h : session.Live) (hused : session.client.header.used = 0) (junk : UInt8) :
    session.Alike (session.reloaded junk) := by
  obtain hopen | hstale := h.client
  · obtain ⟨hopen', hpending, _⟩ := hopen.reloaded h.saveable junk
    exact ⟨rfl, rfl, Or.inr (Or.inl ⟨hopen, hopen', hpending hused⟩)⟩
  · exact absurd (hstale.used_eq.symm.trans hused) (Nat.succ_ne_zero 3)

/-! ### A lost header -/

theorem hex2intFrom_last_zero (hex : List UInt8) (result : ℕ) :
    hex2intFrom result (hex ++ [48]) ≤ 0 ∨ 16 ≤ hex2intFrom result (hex ++ [48]) := by
  induction hex generalizing result with
  | nil =>
    have hvalue : hex2intFrom result [48] = (result * 16 : ℕ) := by
      change ((result <<< 4 ||| 0 : ℕ) : ℤ) = _
      rw [shift_or result (by decide), Nat.add_zero]
    rw [nil_append, hvalue]
    omega
  | cons digit hex ih =>
    rw [List.cons_append, hex2intFrom]
    split
    · exact Or.inl (by decide)
    · exact ih _

/-- A header that ends in a zero digit, and at most 15 bytes: no frame is delivered. -/
theorem Open.delivered_of_zero (h : session.Open) (first body : List UInt8)
    (hsize : (session.client.pending ++ (first ++ [48])).length = FRAME_HEADER_SIZE) (hbody : body ≠ [])
    (hlength : body.length < 16) (hstep : clientStep frees (first ++ 48 :: body) session = some last) :
    last.delivered = session.delivered := by
  have hmsg : first ++ 48 :: body ≠ [] := List.append_ne_nil_of_right_ne_nil first (cons_ne_nil 48 body)
  have hsplit :
      session.client.pending ++ (first ++ 48 :: body) = session.client.pending ++ (first ++ [48]) ++ body := by
    rw [append_assoc, append_assoc, List.singleton_append]
  have hheader := client_next_header hsize body
  rw [clientStep_eq h.freed, h.recv_eq] at hstep
  obtain ⟨client, hturn, _⟩ | ⟨frame, rest, client, hnext, _, hturn, hleft⟩ :=
    (h.taking (first ++ 48 :: body)).turns frees (first ++ 48 :: body).length hmsg
  · cases hstep.symm.trans hturn
    rfl
  · change clientFormat.frames.next (session.client.pending ++ (first ++ 48 :: body)) = _ at hnext
    rw [hsplit, hheader, client_length] at hnext
    obtain ⟨hle, hsome⟩ := Option.ite_none_right_eq_some.mp hnext
    obtain ⟨hframe, hrest⟩ := Prod.mk.inj (Option.some.inj hsome)
    cases hframe
    have hnonpos : ¬0 < hex2int (session.client.pending ++ (first ++ [48])) := by
      have hzero := hex2intFrom_last_zero (session.client.pending ++ first) 0
      rw [append_assoc] at hzero
      change hex2int _ ≤ 0 ∨ 16 ≤ hex2int _ at hzero
      omega
    have hnone : (hex2int (session.client.pending ++ (first ++ [48]))).toNat = 0 := by omega
    rw [hnone, List.drop_zero] at hrest
    subst hrest
    have hmessages := messagesOf_nonpos hnonpos
      (body.take (hex2int (session.client.pending ++ (first ++ [48]))).toNat)
    have hkept : ((session.taking (first ++ 48 :: body)).after frees (session.client.pending ++ (first ++ [48]),
        body.take (hex2int (session.client.pending ++ (first ++ [48]))).toNat) client).freed = false := by
      refine decide_eq_false fun hgone ↦ hgone.1 hmessages
    have hstale := hleft hkept
    rw [Left, if_neg hnonpos] at hstale
    rw [hstep, recvTurns_stale frees hstale hkept hbody] at hturn
    cases hturn

/-- The frame that tells a lost header: a payload of one byte. -/
def probe : List UInt8 := [48, 48, 48, 49, 49]

section

variable (frees : List (List UInt8) → Bool) (h : session.Open) (hpending : session.client.pending = [])
include h hpending

theorem Open.delivers_probe :
    ∃ last, clientStep frees probe session = some last ∧ last.delivered = session.delivered ++ [[49]] := by
  have hprobe : clientFormat.frames.next probe = some (some ([48, 48, 48, 49], [49]), []) := by decide +kernel
  rw [clientStep_eq h.freed, h.recv_eq]
  obtain ⟨client, _, _, _, hnone⟩ | ⟨frame, rest, client, hnext, _, hturn, _⟩ :=
    (h.taking probe).turns frees probe.length (cons_ne_nil 48 _)
  · change clientFormat.frames.next (session.client.pending ++ probe) = none at hnone
    rw [hpending, nil_append, hprobe] at hnone
    cases hnone
  · change clientFormat.frames.next (session.client.pending ++ probe) = _ at hnext
    rw [hpending, nil_append, hprobe] at hnext
    obtain ⟨hframe, hrest⟩ := Prod.mk.inj (Option.some.inj hnext)
    cases hframe
    obtain rfl := hrest
    refine ⟨_, hturn, ?_⟩
    change session.delivered ++ messagesOf [([48, 48, 48, 49], [49])] = _
    rw [messagesOf_pos (by decide)]

theorem Open.step_digit : ∃ last, clientStep frees [48] session = some last := by
  rw [clientStep_eq h.freed, h.recv_eq]
  obtain ⟨client, hturn, _⟩ | ⟨_, _, _, hnext, _⟩ := (h.taking [48]).turns frees 1 (cons_ne_nil 48 [])
  · exact ⟨_, hturn⟩
  · change clientFormat.frames.next (session.client.pending ++ [48]) = _ at hnext
    rw [hpending, nil_append, Format.next_short (by decide)] at hnext
    cases hnext

end

/-- A part of a header that is not loaded, or a header that was left in the sink. -/
theorem Live.not_sameFrames (h : session.Live) (hused : session.client.header.used ≠ 0) (junk : UInt8) :
    ¬session.SameFrames frees (session.reloaded junk) := by
  intro hsame
  obtain hopen | hstale := h.client
  · have hheader : session.client.NeedsHeader :=
      hopen.client.resolve_right fun hpayload ↦ hused hpayload.header_used
    obtain ⟨hopen', _, hnone⟩ := hopen.reloaded h.saveable junk
    obtain ⟨last', hstep', hdelivered'⟩ := hopen'.delivers_probe frees (hnone hheader)
    have hrun := hsame [probe]
    rw [run_cons, run_cons, hstep', bind_some, run_nil, map_some, hdelivered'] at hrun
    obtain ⟨last, hbind, hdelivered⟩ := Option.map_eq_some_iff.mp hrun
    obtain ⟨next, hstep, hlast⟩ := Option.bind_eq_some_iff.mp hbind
    obtain rfl := Option.some.inj hlast
    have hroom := hheader.used_lt
    have hlength : session.client.pending.length = session.client.header.used := by
      rw [hheader.pending_eq]
      exact List.length_take_of_le (hheader.header0_length.symm ▸ hroom.le)
    have hfour : FRAME_HEADER_SIZE = 4 := rfl
    have hsame : next.delivered = session.delivered := by
      obtain hone | htwo | hthree : session.client.header.used = 1 ∨ session.client.header.used = 2 ∨
          session.client.header.used = 3 := by omega
      · have hsize : (session.client.pending ++ ([48, 48] ++ [48])).length = FRAME_HEADER_SIZE := by
          rw [length_append, hlength, hone]
          rfl
        exact hopen.delivered_of_zero [48, 48] [49, 49] hsize (cons_ne_nil 49 _) (by decide) hstep
      · have hsize : (session.client.pending ++ ([48] ++ [48])).length = FRAME_HEADER_SIZE := by
          rw [length_append, hlength, htwo]
          rfl
        exact hopen.delivered_of_zero [48] [48, 49, 49] hsize (cons_ne_nil 48 _) (by decide) hstep
      · have hsize : (session.client.pending ++ ([] ++ [48])).length = FRAME_HEADER_SIZE := by
          rw [length_append, hlength, hthree]
          rfl
        exact hopen.delivered_of_zero [] [48, 48, 49, 49] hsize (cons_ne_nil 48 _) (by decide) hstep
    rw [hsame] at hdelivered
    exact absurd (List.self_eq_append_right.mp hdelivered) (cons_ne_nil _ _)
  · have hclient : (session.client.reloaded junk).NeedsHeader :=
      ⟨⟨hstale.framing, rfl, hstale.header0_length⟩, hstale.need_header, Nat.succ_pos 3⟩
    have hshort : ¬(([48] : List UInt8).length > FRAME_HEADER_SIZE ∧ isWholeFrame [48] = true) := fun hfast ↦
      absurd hfast.1 (by decide)
    have hloops : run (clientStep frees) session [[48]] = none := by
      have htaking : (session.taking [48]).client.Stale := hstale
      rw [run_cons, clientStep_eq h.freed, stale_recv_eq hstale, if_neg hshort,
        recvTurns_stale frees htaking h.freed (cons_ne_nil 48 []), Option.bind_none]
    have hrun := hsame [[48]]
    rw [hloops, Option.map_none] at hrun
    have hopen' : (session.reloaded junk).Open := ⟨Or.inl hclient, h.freed, h.usedFreed⟩
    obtain ⟨last, hstep⟩ := hopen'.step_digit frees hclient.pending_eq
    rw [run_cons, hstep, bind_some, run_nil, map_some] at hrun
    cases hrun

end ClientSession

/-! ## Snapshots -/

/-- The service is there and takes the client, which loads what it has saved. -/
structure QemudServices.Takes (services : QemudServices) (channel : ℤ) (service param clie_state : List UInt8) :
    Prop where
  registered : services.qemud_service_find service = true
  name : 0 ∉ service
  name_length : service.length + 1 < 2 ^ 31
  param_length : param.length < 2 ^ 32
  connects : (services.serv_connect service channel param).isSome = true
  loads : ∀ rest, services.clie_load service (clie_state ++ rest) = some rest

/-- A serial client comes back on its channel, and its service gets the same frames. -/
def SerialRestored (services : QemudServices) (junk : UInt8) (frees : List (List UInt8) → Bool) (channel : ℤ)
    (service param clie_state : List UInt8) (session : ClientSession) : Prop :=
  ∃ client, (∀ rest, qemud_serial_client_load services junk
        (qemud_serial_client_save channel clie_state ⟨service, param, session.client⟩ ++ rest) =
      some (channel, ⟨service, param, client⟩, rest)) ∧
    session.SameFrames frees { session with client }

/-- The guest reads the same bytes, whatever is sent and read. -/
def SameReads (session other : PipeSession) : Prop :=
  ∀ labels, (run (pipeStep true) session labels).map PipeSession.delivered =
    (run (pipeStep true) other labels).map PipeSession.delivered

/-- The client of a pipe comes back, its service gets the same frames and the guest reads the same bytes. -/
def PipeRestored (services : QemudServices) (junk : UInt8) (frees : List (List UInt8) → Bool)
    (service param clie_state : List UInt8) (session : ClientSession) (pipe : PipeSession) : Prop :=
  ∃ messages client, (∀ rest, _qemudPipe_load services junk
        (_qemudPipe_save clie_state pipe.client ⟨service, param, session.client⟩ ++ rest) =
      some (messages, ⟨service, param, client⟩, rest)) ∧
    session.SameFrames frees { session with client } ∧ SameReads pipe { pipe with client := messages }

section

variable {services : QemudServices} {junk : UInt8} {frees : List (List UInt8) → Bool} {channel : ℤ}
  {service param clie_state : List UInt8} {session : ClientSession}

/-- The fields of a serial client are read one after the other. -/
theorem serial_load_eq {stream afterName afterParam afterChannel afterState rest : List UInt8} {framing : Bool}
    {client : QemudClient} (hname : qemud_service_load_name stream = some (service, afterName))
    (hparam : getString afterName = (param, afterParam)) (hregistered : services.qemud_service_find service = true)
    (hint : stream_get_be32 afterParam = (channel, afterChannel)) (hchannel : channel ≠ 0)
    (hconnect : services.serv_connect service channel param = some framing)
    (hstate : services.clie_load service afterChannel = some afterState)
    (hframing : QemudClient.loadFraming (.alloc framing) junk afterState = some (client, rest)) :
    qemud_serial_client_load services junk stream = some (channel, ⟨service, param, client⟩, rest) := by
  have hknown : ¬(!services.qemud_service_find service) = true := by
    rw [hregistered]
    exact Bool.false_ne_true
  rw [qemud_serial_client_load, hname, bind_some]
  simp only [hparam]
  rw [if_neg hknown]
  simp only [hint]
  rw [if_neg hchannel, hconnect, bind_some, hstate, bind_some, hframing, map_some]

theorem pipe_load_eq {stream afterName afterParam afterMessages afterState rest : List UInt8} {framing : Bool}
    {client : QemudClient} {messages : PipeClient}
    (hname : qemud_service_load_name stream = some (service, afterName))
    (hregistered : services.qemud_service_find service = true)
    (hparam : getString afterName = (param, afterParam))
    (hconnect : services.serv_connect service (-1) param = some framing)
    (hmessages : _load_pipe_message afterParam = some (messages, afterMessages))
    (hstate : services.clie_load service afterMessages = some afterState)
    (hframing : QemudClient.loadFraming (.alloc framing) junk afterState = some (client, rest)) :
    _qemudPipe_load services junk stream = some (messages, ⟨service, param, client⟩, rest) := by
  have hknown : ¬(!services.qemud_service_find service) = true := by
    rw [hregistered]
    exact Bool.false_ne_true
  rw [_qemudPipe_load, hname, bind_some]
  simp only
  rw [if_neg hknown]
  simp only [hparam]
  rw [hconnect, bind_some, hmessages, bind_some]
  simp only
  rw [hstate, bind_some, hframing, map_some]

theorem serial_load_save (junk : UInt8) (hsaveable : session.client.Saveable)
    (htakes : services.Takes channel service param clie_state) (hlow : -2 ^ 31 ≤ channel) (hhigh : channel < 2 ^ 31)
    (hchannel : channel ≠ 0) (rest : List UInt8) :
    qemud_serial_client_load services junk
        (qemud_serial_client_save channel clie_state ⟨service, param, session.client⟩ ++ rest) =
      some (channel, ⟨service, param, session.client.reloaded junk⟩, rest) := by
  obtain ⟨framing, hframing⟩ := isSome_iff_exists.mp htakes.connects
  have hname := load_save_name htakes.name htakes.name_length
  have hint := stream_get_be32_put_be32 channel hlow hhigh
  rw [qemud_serial_client_save, append_assoc, append_assoc, append_assoc, append_assoc]
  exact serial_load_eq (hname _) (getString_putString htakes.param_length _) htakes.registered (hint _) hchannel
    hframing (htakes.loads _) (hsaveable.load_save framing junk rest)

theorem pipe_load_save (junk : UInt8) (hsaveable : session.client.Saveable)
    (htakes : services.Takes (-1) service param clie_state) {pipe : PipeSession} (hpipe : pipe.Pending)
    (rest : List UInt8) :
    _qemudPipe_load services junk (_qemudPipe_save clie_state pipe.client ⟨service, param, session.client⟩ ++ rest) =
      some (pipe.client, ⟨service, param, session.client.reloaded junk⟩, rest) := by
  obtain ⟨framing, hframing⟩ := isSome_iff_exists.mp htakes.connects
  have hname := load_save_name htakes.name htakes.name_length
  rw [_qemudPipe_save, append_assoc, append_assoc, append_assoc, append_assoc, append_assoc]
  exact pipe_load_eq (hname _) htakes.registered (getString_putString htakes.param_length _) hframing
    (hpipe.load_save _) (htakes.loads _) (hsaveable.load_save framing junk rest)

theorem ClientSession.Live.sameFrames_iff (h : session.Live) (frees : List (List UInt8) → Bool) (junk : UInt8) :
    session.SameFrames frees (session.reloaded junk) ↔ session.client.header.used = 0 := by
  refine ⟨fun hsame ↦ ?_, fun hused ↦ (h.alike hused junk).sameFrames⟩
  by_contra hused
  exact h.not_sameFrames hused junk hsame

theorem ClientSession.Live.serialRestored_iff (h : session.Live)
    (htakes : services.Takes channel service param clie_state) (hlow : 0 < channel) (hhigh : channel < 2 ^ 31) :
    SerialRestored services junk frees channel service param clie_state session ↔ session.client.header.used = 0 := by
  have hload (rest : List UInt8) := serial_load_save junk h.saveable htakes (by omega) hhigh hlow.ne' rest
  refine ⟨?_, fun hused ↦ ⟨_, hload, (h.sameFrames_iff frees junk).mpr hused⟩⟩
  rintro ⟨client, hclient, hframes⟩
  have heq := Option.some.inj ((hload []).symm.trans (hclient []))
  obtain rfl := (ConnectedClient.mk.inj (Prod.mk.inj (Prod.mk.inj heq).2).1).2.2
  exact (h.sameFrames_iff frees junk).mp hframes

theorem ClientSession.Live.pipeRestored_iff (h : session.Live) {pipe : PipeSession} (hpending : pipe.Pending)
    (htakes : services.Takes (-1) service param clie_state) :
    PipeRestored services junk frees service param clie_state session pipe ↔ session.client.header.used = 0 := by
  have hload (rest : List UInt8) := pipe_load_save junk h.saveable htakes hpending rest
  refine ⟨?_, fun hused ↦ ⟨_, _, hload, (h.sameFrames_iff frees junk).mpr hused, fun labels ↦ rfl⟩⟩
  rintro ⟨messages, client, hclient, hframes, _⟩
  have heq := Option.some.inj ((hload []).symm.trans (hclient []))
  obtain rfl := (ConnectedClient.mk.inj (Prod.mk.inj (Prod.mk.inj heq).2).1).2.2
  exact (h.sameFrames_iff frees junk).mp hframes

end

/-- A framed client comes back as it was exactly if no byte of a header is in its header sink. -/
theorem restored_iff_header_empty (services : QemudServices) (junk : UInt8) (frees : List (List UInt8) → Bool)
    (service param clie_state : List UInt8) {inputs : List (List UInt8)} {session : ClientSession}
    (hrun : run (clientStep frees) (.alloc true) inputs = some session) (hfreed : session.freed = false) :
    (∀ channel : ℤ, 0 < channel → channel < 2 ^ 31 → services.Takes channel service param clie_state →
      (SerialRestored services junk frees channel service param clie_state session ↔
        session.client.header.used = 0)) ∧
    ∀ labels pipe, run (pipeStep true) .new labels = some pipe → services.Takes (-1) service param clie_state →
      (PipeRestored services junk frees service param clie_state session pipe ↔
        session.client.header.used = 0) := by
  have hlive := ClientSession.live_of_run hrun hfreed
  refine ⟨fun channel hlow hhigh htakes ↦ ?_, fun labels pipe hpipe htakes ↦ ?_⟩
  · exact hlive.serialRestored_iff htakes hlow hhigh
  · have hpending := invariant_of_run PipeSession.pending_step PipeSession.pending_new hpipe
    exact hlive.pipeRestored_iff hpending htakes

/-! ### A client that has got a part of a frame -/

/-- The only service. Its client saves nothing. -/
def oneService : QemudServices := ⟨[[97]], fun _ _ _ ↦ some true, fun _ stream ↦ some stream⟩

theorem oneService_takes (channel : ℤ) : oneService.Takes channel [97] [] [] :=
  ⟨by decide, by decide, by decide, by decide, rfl, fun _ ↦ rfl⟩

/-- A header and one byte of two: the client comes back. -/
theorem restored_iff_header_empty_payload : ∃ session pipe,
    run (clientStep fun _ ↦ false) (.alloc true) [[48, 48, 48], [50, 98]] = some session ∧
      run (pipeStep true) .new [.send [99], .append, .append, .recvBuffers [2]] = some pipe ∧
      SerialRestored oneService 0 (fun _ ↦ false) 3 [97] [] [] session ∧
      PipeRestored oneService 0 (fun _ ↦ false) [97] [] [] session pipe := by
  obtain ⟨session, hrun⟩ := isSome_iff_exists.mp
    (by decide +kernel : (run (clientStep fun _ ↦ false) (.alloc true) [[48, 48, 48], [50, 98]]).isSome = true)
  obtain ⟨pipe, hpipe⟩ := isSome_iff_exists.mp
    (by decide +kernel : (run (pipeStep true) .new [.send [99], .append, .append, .recvBuffers [2]]).isSome = true)
  have hwhere : (run (clientStep fun _ ↦ false) (.alloc true) [[48, 48, 48], [50, 98]]).any
      (fun session ↦ session.freed = false ∧ session.client.header.used = 0) = true := by decide +kernel
  rw [hrun, Option.any_some, decide_eq_true_eq] at hwhere
  obtain ⟨hserial, hpipes⟩ := restored_iff_header_empty oneService 0 (fun _ ↦ false) [97] [] [] hrun hwhere.1
  exact ⟨session, pipe, hrun, hpipe, (hserial 3 (by decide) (by decide) (oneService_takes 3)).mpr hwhere.2,
    (hpipes _ pipe hpipe (oneService_takes (-1))).mpr hwhere.2⟩

/-- Two bytes of a header: neither client comes back. -/
theorem lost_header : ∃ session,
    run (clientStep fun _ ↦ false) (.alloc true) [[48, 48]] = some session ∧
      ¬SerialRestored oneService 0 (fun _ ↦ false) 3 [97] [] [] session ∧
      ¬PipeRestored oneService 0 (fun _ ↦ false) [97] [] [] session .new := by
  obtain ⟨session, hrun⟩ := isSome_iff_exists.mp
    (by decide +kernel : (run (clientStep fun _ ↦ false) (.alloc true) [[48, 48]]).isSome = true)
  have hwhere : (run (clientStep fun _ ↦ false) (.alloc true) [[48, 48]]).any
      (fun session ↦ session.freed = false ∧ session.client.header.used = 2) = true := by decide +kernel
  rw [hrun, Option.any_some, decide_eq_true_eq] at hwhere
  have hlive := ClientSession.live_of_run hrun hwhere.1
  have hused : session.client.header.used ≠ 0 := by
    rw [hwhere.2]
    decide
  exact ⟨session, hrun,
    fun hserial ↦ hused ((hlive.serialRestored_iff (oneService_takes 3) (by decide) (by decide)).mp hserial),
    fun hpipe ↦ hused ((hlive.pipeRestored_iff PipeSession.pending_new (oneService_takes (-1))).mp hpipe)⟩

end FdeEmugl.Qemud

import FdeEmugl.Qemud.Serial

/-!
# The packets of the serial line

Whatever the pieces in which the bytes come, and with snapshots between them, the packets of the stream are
delivered in order up to the first one that is too long for the buffer; nothing is delivered after that one.
-/

namespace FdeEmugl.Qemud

open Framing Overwrite Runs FdeEmugl.Stream
open List (append_assoc append_nil length_take_of_le take_zero)

/-! ## The grammar -/

def channelOf (header : List UInt8) : ℤ := hex2int ((header.drop CHANNEL_OFFSET).take CHANNEL_SIZE)

def lengthOf (header : List UInt8) : ℤ := hex2int ((header.drop LENGTH_OFFSET).take LENGTH_SIZE)

/-- A header that stands for a payload. -/
def WellFormed (header : List UInt8) : Prop := 0 < lengthOf header ∧ 0 ≤ channelOf header

instance (header : List UInt8) : Decidable (WellFormed header) := inferInstanceAs (Decidable (_ ∧ _))

/-- The payload does not fit in the buffer. -/
def Huge (header : List UInt8) : Prop := WellFormed header ∧ MAX_SERIAL_PAYLOAD < lengthOf header

instance (header : List UInt8) : Decidable (Huge header) := inferInstanceAs (Decidable (_ ∧ _))

/-- A malformed header, or one of length 0, stands for itself; a huge packet is dropped with its payload. -/
def serialFormat : Format UInt8 ℤ where
  headerSize := HEADER_SIZE
  headerSize_pos := by decide
  kind header := if WellFormed header ∧ ¬Huge header then some (channelOf header) else none
  length header := if WellFormed header then (lengthOf header).toNat else 0

/-- The packets that the line is to deliver. -/
def packetOf (frame : List UInt8 × List UInt8) : Option (ℤ × List UInt8) := serialFormat.message frame.1 frame.2

theorem packetOf_eq (header payload : List UInt8) : packetOf (header, payload) =
      if WellFormed header ∧ ¬Huge header then some (channelOf header, payload) else none := by
  simp only [packetOf, Format.message, serialFormat]
  split_ifs <;> rfl

theorem serial_length (header : List UInt8) :
    serialFormat.frames.length header = if WellFormed header then (lengthOf header).toNat else 0 := by
  simp only [Format.frames, serialFormat]

theorem frames_next_header {header : List UInt8} (hsize : header.length = HEADER_SIZE) (body : List UInt8) :
    serialFormat.frames.next (header ++ body) =
      if serialFormat.frames.length header ≤ body.length then
        some (some (header, body.take (serialFormat.frames.length header)),
          body.drop (serialFormat.frames.length header))
      else none :=
  Format.next_frame hsize body

namespace QemudSerial

variable {s : QemudSerial}

/-- What always holds of the numbers. -/
structure InRange (s : QemudSerial) : Prop where
  data0_length : s.data0.length = MAX_SERIAL_PAYLOAD + 1
  header_size : s.header.size = HEADER_SIZE
  header_used : s.header.used < HEADER_SIZE
  payload_size : s.payload.size ≤ MAX_SERIAL_PAYLOAD
  payload_used : s.payload.used ≤ s.payload.size
  overflow_lt : s.overflow < 2 ^ 16
  in_size_range : -1 ≤ s.in_size ∧ s.in_size < 2 ^ 16
  in_channel_range : -1 ≤ s.in_channel ∧ s.in_channel < 2 ^ 16

/-- The payload of this header is read. -/
structure Reads (s : QemudSerial) (header : List UInt8) : Prop where
  header_length : header.length = HEADER_SIZE
  wellFormed : WellFormed header
  not_huge : ¬Huge header
  channel_eq : s.in_channel = channelOf header
  size_eq : s.payload.size = (lengthOf header).toNat
  header_used : s.header.used = 0
  used_lt : s.payload.used < s.payload.size

/-- The bytes of the packet that is not complete. -/
def Holds (s : QemudSerial) (pending : List UInt8) : Prop :=
  match s.need_header with
  | true => pending = s.data0.take s.header.used
  | false => ∃ header, s.Reads header ∧ pending = header ++ s.data0.take s.payload.used

variable {header bytes : List UInt8}

theorem channelOf_range (header : List UInt8) : -1 ≤ channelOf header ∧ channelOf header < 2 ^ 16 := by
  obtain ⟨hlow, hhigh⟩ := hex2int_lt ((header.drop CHANNEL_OFFSET).take CHANNEL_SIZE)
  refine ⟨hlow, hhigh.trans_le ?_⟩
  have hlength : ((header.drop CHANNEL_OFFSET).take CHANNEL_SIZE).length ≤ 4 :=
    (List.length_take_le _ _).trans (by decide)
  calc (16 : ℤ) ^ _ ≤ 16 ^ 4 := pow_le_pow_right₀ (by decide) hlength
    _ = 2 ^ 16 := by norm_num

theorem lengthOf_range (header : List UInt8) : -1 ≤ lengthOf header ∧ lengthOf header < 2 ^ 16 := by
  obtain ⟨hlow, hhigh⟩ := hex2int_lt ((header.drop LENGTH_OFFSET).take LENGTH_SIZE)
  refine ⟨hlow, hhigh.trans_le ?_⟩
  have hlength : ((header.drop LENGTH_OFFSET).take LENGTH_SIZE).length ≤ 4 := List.length_take_le _ _
  calc (16 : ℤ) ^ _ ≤ 16 ^ 4 := pow_le_pow_right₀ (by decide) hlength
    _ = 2 ^ 16 := by norm_num

/-- The buffer begins with the header. -/
theorem header_of_take {data0 : List UInt8} (h : data0.take HEADER_SIZE = header) :
    hex2int ((data0.drop LENGTH_OFFSET).take LENGTH_SIZE) = lengthOf header ∧
      hex2int ((data0.drop CHANNEL_OFFSET).take CHANNEL_SIZE) = channelOf header := by
  subst h
  unfold lengthOf channelOf
  rw [List.drop_take, List.drop_take, List.take_take, List.take_take]
  exact ⟨rfl, rfl⟩

/-- The header does not become complete. -/
theorem readHeader_part (h : s.InRange) (hneed : s.need_header = true)
    (hpart : s.header.used + bytes.length < HEADER_SIZE) :
    ∃ after, s.readHeader bytes = (.leave, [], after) ∧ after.InRange ∧ after.overflow = s.overflow ∧
      after.Holds (s.data0.take s.header.used ++ bytes) ∧
      serialFormat.frames.next (s.data0.take s.header.used ++ bytes) = none := by
  have hdata := h.data0_length
  have hsix := h.header_size
  have hused := h.header_used
  have hroom : s.header.size ≤ s.data0.length := by
    rw [hsix, hdata]
    decide
  obtain ⟨filled, hfill, hlength, htake⟩ := QemudSink.fill_part hroom (hsix.symm ▸ hpart)
  refine ⟨{ s with header := ⟨s.header.used + bytes.length, s.header.size⟩, data0 := filled }, ?_, ?_, rfl, ?_, ?_⟩
  · simp only [readHeader, hneed, if_true, hfill, Bool.not_false]
  · exact ⟨hlength.trans hdata, hsix, hpart, h.payload_size, h.payload_used, h.overflow_lt, h.in_size_range,
      h.in_channel_range⟩
  · simp only [Holds, hneed]
    exact htake.symm
  · refine Format.next_short ?_
    rw [List.length_append, length_take_of_le (by omega)]
    exact hpart

/-- The header becomes complete. -/
theorem readHeader_whole (h : s.InRange) (hneed : s.need_header = true)
    (hwhole : HEADER_SIZE ≤ s.header.used + bytes.length) :
    ∃ header piece rest after, bytes = piece ++ rest ∧ s.data0.take s.header.used ++ piece = header ∧
      header.length = HEADER_SIZE ∧ rest.length < bytes.length ∧ after.InRange ∧
      ((¬WellFormed header ∧ s.readHeader bytes = (.next, rest, after) ∧ after.overflow = s.overflow ∧
          after.Holds []) ∨
        (Huge header ∧ s.readHeader bytes = (.next, rest, after) ∧ 0 < after.overflow) ∨
        (s.readHeader bytes = (.payload, rest, after) ∧ after.overflow = s.overflow ∧
          after.need_header = false ∧ after.Reads header ∧ after.payload.used = 0)) := by
  have hdata := h.data0_length
  have hsix := h.header_size
  have hused := h.header_used
  have hroom : s.header.size ≤ s.data0.length := by
    rw [hsix, hdata]
    decide
  obtain ⟨filled, hfill, hlength, htake⟩ := QemudSink.fill_whole hroom (hsix.symm ▸ hused) (hsix.symm ▸ hwhole)
  rw [hsix] at hfill htake
  have hheader : (s.data0.take s.header.used ++ bytes.take (HEADER_SIZE - s.header.used)).length = HEADER_SIZE := by
    rw [List.length_append, length_take_of_le (by omega), length_take_of_le (by omega)]
    omega
  have hbytes : bytes = bytes.take (HEADER_SIZE - s.header.used) ++ bytes.drop (HEADER_SIZE - s.header.used) :=
    (List.take_append_drop _ bytes).symm
  have hless : (bytes.drop (HEADER_SIZE - s.header.used)).length < bytes.length := by
    rw [List.length_drop]
    omega
  obtain ⟨hsize, hchannel⟩ := header_of_take htake
  generalize hdef : s.data0.take s.header.used ++ bytes.take (HEADER_SIZE - s.header.used) = header at *
  generalize bytes.take (HEADER_SIZE - s.header.used) = piece at *
  generalize bytes.drop (HEADER_SIZE - s.header.used) = rest at *
  have hsizeRange := lengthOf_range header
  have hchannelRange := channelOf_range header
  have hmax : (MAX_SERIAL_PAYLOAD : ℤ) = 4000 := rfl
  have hmaxNat : MAX_SERIAL_PAYLOAD = 4000 := rfl
  simp only [readHeader, hneed, if_true, hfill, Bool.not_true, Bool.false_eq_true, if_false, hsize, hchannel]
  by_cases hbad : lengthOf header ≤ 0 ∨ channelOf header < 0
  · refine ⟨header, piece, rest, _, hbytes, hdef, hheader, hless, ?_, Or.inl ⟨fun hwell ↦ ?_, if_pos hbad, rfl, rfl⟩⟩
    · exact ⟨hlength.trans hdata, rfl, Nat.succ_pos 5, h.payload_size, h.payload_used, h.overflow_lt, hsizeRange,
        hchannelRange⟩
    · have hlengthPos := hwell.1
      have hchannelPos := hwell.2
      omega
  · have hwell : WellFormed header := by
      unfold WellFormed
      omega
    have hpos := hwell.1
    rw [if_neg hbad]
    by_cases hhuge : lengthOf header > MAX_SERIAL_PAYLOAD
    · refine ⟨header, piece, rest, _, hbytes, hdef, hheader, hless, ?_, Or.inr (Or.inl ⟨⟨hwell, hhuge⟩, if_pos hhuge, ?_⟩)⟩
      · refine ⟨hlength.trans hdata, rfl, Nat.succ_pos 5, h.payload_size, h.payload_used, ?_, hsizeRange,
          hchannelRange⟩
        simp only
        omega
      · simp only
        omega
    · refine ⟨header, piece, rest, _, hbytes, hdef, hheader, hless, ?_, Or.inr (Or.inr ⟨if_neg hhuge, rfl, rfl, ?_, rfl⟩)⟩
      · refine ⟨hlength.trans hdata, rfl, Nat.succ_pos 5, ?_, Nat.zero_le _, h.overflow_lt, hsizeRange, hchannelRange⟩
        simp only [QemudSink.reset]
        omega
      · refine ⟨hheader, hwell, fun hbig ↦ hhuge hbig.2, rfl, rfl, rfl, ?_⟩
        simp only [QemudSink.reset]
        omega

/-- The payload is read as far as it has come. -/
theorem readPayload_part (h : s.InRange) (hneed : s.need_header = false) (hreads : s.Reads header)
    (hpart : s.payload.used + bytes.length < s.payload.size) :
    ∃ after, s.readPayload bytes = (none, [], after) ∧ after.InRange ∧ after.overflow = s.overflow ∧
      after.Holds (header ++ s.data0.take s.payload.used ++ bytes) ∧
      serialFormat.frames.next (header ++ s.data0.take s.payload.used ++ bytes) = none := by
  have hdata := h.data0_length
  have hmax := h.payload_size
  have hused := hreads.used_lt
  have hroom : s.payload.size ≤ s.data0.length := by omega
  obtain ⟨filled, hfill, hlength, htake⟩ := QemudSink.fill_part hroom hpart
  refine ⟨{ s with payload := ⟨s.payload.used + bytes.length, s.payload.size⟩, data0 := filled }, ?_, ?_, rfl, ?_, ?_⟩
  · simp only [readPayload, hfill, Bool.not_false, if_true]
  · exact ⟨hlength.trans hdata, h.header_size, h.header_used, h.payload_size, hpart.le, h.overflow_lt,
      h.in_size_range, h.in_channel_range⟩
  · simp only [Holds, hneed]
    refine ⟨header, ⟨hreads.header_length, hreads.wellFormed, hreads.not_huge, hreads.channel_eq, hreads.size_eq,
      hreads.header_used, hpart⟩, ?_⟩
    rw [htake, append_assoc]
  · rw [append_assoc, frames_next_header hreads.header_length, serial_length, if_pos hreads.wellFormed,
      ← hreads.size_eq, if_neg]
    rw [List.length_append, length_take_of_le (by omega)]
    omega

/-- The payload is complete. -/
theorem readPayload_whole (h : s.InRange) (hreads : s.Reads header)
    (hwhole : s.payload.size ≤ s.payload.used + bytes.length) :
    ∃ payload rest after, s.readPayload bytes = (some (channelOf header, payload), rest, after) ∧
      after.InRange ∧ after.overflow = s.overflow ∧ after.Holds [] ∧ rest.length < bytes.length ∧
      ∃ piece, bytes = piece ++ rest ∧ serialFormat.frames.next (header ++ s.data0.take s.payload.used ++ piece) =
        some (some (header, payload), []) := by
  have hdata := h.data0_length
  have hmax := h.payload_size
  have hused := hreads.used_lt
  have hroom : s.payload.size ≤ s.data0.length := by omega
  obtain ⟨filled, hfill, hlength, htake⟩ := QemudSink.fill_whole hroom hused hwhole
  refine ⟨(filled.set s.payload.size 0).take s.payload.size, _, { s with
      need_header := true
      payload := ⟨s.payload.size, s.payload.size⟩
      data0 := filled.set s.payload.size 0 }, ?_, ?_, rfl, ?_, ?_, bytes.take (s.payload.size - s.payload.used), (List.take_append_drop _ _).symm, ?_⟩
  · simp only [readPayload, hfill, Bool.not_true, Bool.false_eq_true, if_false, hreads.channel_eq]
  · refine ⟨?_, h.header_size, h.header_used, h.payload_size, le_rfl, h.overflow_lt, h.in_size_range, h.in_channel_range⟩
    rw [List.length_set]
    exact hlength.trans hdata
  · simp only [Holds, hreads.header_used, take_zero]
  · rw [List.length_drop]
    omega
  · have hpayload : (filled.set s.payload.size 0).take s.payload.size =
        s.data0.take s.payload.used ++ bytes.take (s.payload.size - s.payload.used) := by
      rw [List.take_set_of_le le_rfl, htake]
    have hsize : (s.data0.take s.payload.used ++ bytes.take (s.payload.size - s.payload.used)).length =
        s.payload.size := by
      rw [List.length_append, length_take_of_le (by omega), length_take_of_le (by omega)]
      omega
    rw [hpayload, append_assoc, frames_next_header hreads.header_length, serial_length,
      if_pos hreads.wellFormed, ← hreads.size_eq, if_pos hsize.ge]
    generalize s.data0.take s.payload.used ++ bytes.take (s.payload.size - s.payload.used) = payload at *
    rw [← hsize, List.take_length, List.drop_length]

end QemudSerial

open QemudSerial

/-! ## The session -/

namespace SerialSession

variable {session : SerialSession} {stream : List UInt8}

/-- The packets of the stream are delivered one by one. -/
structure Listens (stream pending : List UInt8) (log : List (List UInt8 × List UInt8)) (session : SerialSession) :
    Prop where
  inRange : session.serial.InRange
  overflow_eq : session.serial.overflow = 0
  holds : session.serial.Holds pending
  received : serialFormat.frames.Received stream pending log
  not_huge : ∀ frame ∈ log, ¬Huge frame.1
  delivered_eq : session.delivered = log.filterMap packetOf

/-- A huge packet has come, and nothing is delivered any more. -/
structure Deaf (before pending after : List UInt8) (log : List (List UInt8 × List UInt8)) (session : SerialSession) :
    Prop where
  inRange : session.serial.InRange
  overflow_pos : 0 < session.serial.overflow
  received : serialFormat.frames.Received before pending log
  huge : ∃ header rest, pending ++ after = header ++ rest ∧ header.length = HEADER_SIZE ∧ Huge header
  not_huge : ∀ frame ∈ log, ¬Huge frame.1
  delivered_eq : session.delivered = log.filterMap packetOf

def Heard (stream : List UInt8) (session : SerialSession) : Prop :=
  (∃ pending log, session.Listens stream pending log) ∨
    ∃ before pending after log, stream = before ++ after ∧ session.Deaf before pending after log

variable {fuel : ℕ} {bytes pending : List UInt8} {log : List (List UInt8 × List UInt8)}

theorem readTurns_deaf (hoverflow : 0 < session.serial.overflow) (hfuel : bytes.length < fuel) :
    readTurns fuel bytes session = some session := by
  induction fuel generalizing bytes with
  | zero => exact absurd hfuel (Nat.not_lt_zero _)
  | succ fuel ih =>
    rw [readTurns]
    split_ifs with hempty
    · rfl
    · refine ih ?_
      have hpos := List.length_pos_iff.mpr hempty
      rw [List.length_drop]
      omega

theorem Deaf.more {before after : List UInt8} (h : session.Deaf before pending after log) (bytes : List UInt8) :
    session.Deaf before pending (after ++ bytes) log := by
  obtain ⟨header, rest, hbytes, hlength, hhuge⟩ := h.huge
  refine ⟨h.inRange, h.overflow_pos, h.received, ⟨header, rest ++ bytes, ?_, hlength, hhuge⟩, h.not_huge,
    h.delivered_eq⟩
  rw [← append_assoc, hbytes, append_assoc]

/-- The part of a turn after the header. -/
def payloadTurn (fuel : ℕ) (bytes : List UInt8) (session : SerialSession) : Option SerialSession :=
  let (packet, bytes, serial) := session.serial.readPayload bytes
  match packet with
  | none => some { session with serial }
  | some packet => readTurns fuel bytes { session with serial, delivered := session.delivered ++ [packet] }

theorem packetOf_reads {s : QemudSerial} {header payload : List UInt8} (h : s.Reads header) :
    packetOf (header, payload) = some (channelOf header, payload) := by
  rw [packetOf_eq, if_pos ⟨h.wellFormed, h.not_huge⟩]

theorem Listens.payload (h : session.Listens stream pending log) (hneed : session.serial.need_header = false)
    (hfuel : bytes.length ≤ fuel)
    (hrest : ∀ {next stream log rest}, Listens stream [] log next → rest.length < fuel → ∃ last, readTurns fuel rest next = some last ∧ last.accepted = next.accepted ∧ last.Heard (stream ++ rest)) :
    ∃ last, payloadTurn fuel bytes session = some last ∧ last.accepted = session.accepted ∧
      last.Heard (stream ++ bytes) := by
  obtain ⟨hrange, hover, hholds, hreceived, hnot, hdelivered⟩ := h
  simp only [Holds, hneed] at hholds
  obtain ⟨header, hreads, rfl⟩ := hholds
  unfold payloadTurn
  obtain hpart | hwhole := Nat.lt_or_ge (session.serial.payload.used + bytes.length) session.serial.payload.size
  · obtain ⟨after, hread, hafter, hsame, hholds, hnone⟩ := readPayload_part hrange hneed hreads hpart
    rw [hread]
    exact ⟨_, rfl, rfl, Or.inl ⟨_, log, hafter, hsame.trans hover, hholds, hreceived.part hnone, hnot, hdelivered⟩⟩
  · obtain ⟨payload, rest, after, hread, hafter, hsame, hholds, hless, piece, rfl, hnext⟩ :=
      readPayload_whole hrange hreads hwhole
    rw [hread]
    have hlog := hreceived.whole hnext
    rw [Option.toList_some] at hlog
    have hlistens : Listens (stream ++ piece) [] (log ++ [(header, payload)])
        { session with serial := after, delivered := session.delivered ++ [(channelOf header, payload)] } := by
      refine ⟨hafter, hsame.trans hover, hholds, hlog, fun frame hframe ↦ ?_, ?_⟩
      · obtain hframe | hframe := List.mem_append.mp hframe
        · exact hnot frame hframe
        · rw [List.mem_singleton.mp hframe]
          exact hreads.not_huge
      · rw [List.filterMap_append, ← hdelivered, List.filterMap_cons, packetOf_reads hreads, List.filterMap_nil]
    have hlast := hrest hlistens (hless.trans_le hfuel)
    rwa [append_assoc] at hlast

/-- What a call does with the bytes. -/
theorem Listens.readTurns (h : session.Listens stream pending log) (hfuel : bytes.length < fuel) :
    ∃ last, SerialSession.readTurns fuel bytes session = some last ∧ last.accepted = session.accepted ∧
      last.Heard (stream ++ bytes) := by
  induction fuel generalizing session stream pending log bytes with
  | zero => exact absurd hfuel (Nat.not_lt_zero _)
  | succ fuel ih =>
    have hbound : bytes.length ≤ fuel := Nat.le_of_lt_succ hfuel
    rw [SerialSession.readTurns]
    split_ifs with hempty hover
    · refine ⟨session, rfl, rfl, Or.inl ⟨pending, log, ?_⟩⟩
      rwa [hempty, append_nil]
    · exact absurd h.overflow_eq hover.ne'
    cases hneed : session.serial.need_header with
    | false =>
      have hskip : session.serial.readHeader bytes = (.payload, bytes, session.serial) := by
        rw [readHeader, hneed, if_neg Bool.false_ne_true]
      rw [hskip]
      exact h.payload hneed hbound fun hlistens hless ↦ ih hlistens hless
    | true =>
      obtain ⟨hrange, hzero, hholds, hreceived, hnot, hdelivered⟩ := h
      simp only [Holds, hneed] at hholds
      subst hholds
      obtain hpart | hwhole := Nat.lt_or_ge (session.serial.header.used + bytes.length) HEADER_SIZE
      · obtain ⟨after, hread, hafter, hsame, hholds, hnone⟩ := readHeader_part hrange hneed hpart
        rw [hread]
        exact ⟨_, rfl, rfl, Or.inl ⟨_, log, hafter, hsame.trans hzero, hholds, hreceived.part hnone, hnot, hdelivered⟩⟩
      · obtain ⟨header, piece, rest, after, rfl, hheader, hsize, hless, hafter, hcases⟩ :=
          readHeader_whole hrange hneed hwhole
        have hnext := frames_next_header hsize []
        rw [append_nil, serial_length, ← hheader] at hnext
        rw [← append_assoc]
        obtain ⟨hbad, hread, hsame, hholds⟩ | ⟨hhuge, hread, hpos⟩ | ⟨hread, hsame, hfalse, hreads, hused⟩ := hcases
        · rw [hread]
          rw [hheader, if_neg hbad, if_pos (Nat.zero_le _), take_zero, List.drop_zero, ← hheader] at hnext
          have hlog := hreceived.whole hnext
          rw [Option.toList_some, hheader] at hlog
          have hlistens : Listens (stream ++ piece) [] (log ++ [(header, [])]) { session with serial := after } := by
            refine ⟨hafter, hsame.trans hzero, hholds, hlog, fun frame hframe ↦ ?_, ?_⟩
            · obtain hframe | hframe := List.mem_append.mp hframe
              · exact hnot frame hframe
              · rw [List.mem_singleton.mp hframe]
                exact fun hhuge ↦ hbad hhuge.1
            · rw [List.filterMap_append, List.filterMap_cons, packetOf_eq, if_neg fun hwell ↦ hbad hwell.1,
                List.filterMap_nil, append_nil]
              exact hdelivered
          exact ih hlistens (hless.trans_le hbound)
        · rw [hread]
          have hdeaf : Deaf stream (session.serial.data0.take session.serial.header.used) (piece ++ rest) log
              { session with serial := after } := by
            refine ⟨hafter, hpos, hreceived, ⟨header, rest, ?_, hsize, hhuge⟩, hnot, hdelivered⟩
            rw [← append_assoc, hheader]
          refine ⟨_, readTurns_deaf hpos (hless.trans_le hbound), rfl, Or.inr ⟨stream, _, _, log, ?_, hdeaf⟩⟩
          rw [append_assoc]
        · rw [hread]
          have hpos : ¬(lengthOf header).toNat ≤ ([] : List UInt8).length := by
            have hlength := hreads.wellFormed.1
            rw [List.length_nil]
            omega
          rw [hheader, if_pos hreads.wellFormed, if_neg hpos, ← hheader] at hnext
          have hlog := hreceived.part hnext
          rw [hheader] at hlog
          have hlistens : Listens (stream ++ piece) header log { session with serial := after } := by
            refine ⟨hafter, hsame.trans hzero, ?_, hlog, hnot, hdelivered⟩
            simp only [Holds, hfalse]
            exact ⟨header, hreads, by rw [hused, take_zero, append_nil]⟩
          exact hlistens.payload hfalse (hless.le.trans hbound) fun hlistens hless ↦ ih hlistens hless

/-- A piece of the stream of any size. -/
theorem Heard.read (h : session.Heard stream) (bytes : List UInt8) :
    ∃ last, session.read bytes = some last ∧ last.accepted = session.accepted ++ bytes ∧
      last.Heard (stream ++ bytes) := by
  unfold SerialSession.read
  obtain ⟨pending, log, hlistens⟩ | ⟨before, pending, after, log, rfl, hdeaf⟩ := h
  · have htaken : Listens stream pending log { session with accepted := session.accepted ++ bytes } :=
      ⟨hlistens.inRange, hlistens.overflow_eq, hlistens.holds, hlistens.received, hlistens.not_huge,
        hlistens.delivered_eq⟩
    exact htaken.readTurns (Nat.lt_succ_self bytes.length)
  · refine ⟨_, readTurns_deaf hdeaf.overflow_pos (Nat.lt_succ_self bytes.length), rfl,
      Or.inr ⟨before, pending, after ++ bytes, log, append_assoc _ _ _, ?_⟩⟩
    have hmore := hdeaf.more bytes
    exact ⟨hmore.inRange, hmore.overflow_pos, hmore.received, hmore.huge, hmore.not_huge, hmore.delivered_eq⟩

end SerialSession

/-! ### Snapshots -/

variable {session : SerialSession} {stream : List UInt8}

/-- Everything is saved, and it is loaded into any line. -/
theorem QemudSerial.load_save {s : QemudSerial} (h : s.InRange) (other : QemudSerial)
    (hother : other.data0.length = MAX_SERIAL_PAYLOAD + 1) : other.load s.save = (0, s) := by
  have hmax : MAX_SERIAL_PAYLOAD = 4000 := rfl
  have hsix : HEADER_SIZE = 6 := rfl
  have hneed := stream_get_be32_put_be32 (if s.need_header then 1 else 0) (by split <;> omega) (by split <;> omega)
  have hover := h.overflow_lt
  have hoverflow := stream_get_be32_put_be32 s.overflow (by omega) (by omega)
  obtain ⟨hsizeLow, hsizeHigh⟩ := h.in_size_range
  have hin_size := stream_get_be32_put_be32 s.in_size (by omega) (by omega)
  obtain ⟨hchannelLow, hchannelHigh⟩ := h.in_channel_range
  have hin_channel := stream_get_be32_put_be32 s.in_channel (by omega) (by omega)
  have hused := h.header_used
  have hsize := h.header_size
  have hheader := s.header.load_save (by omega) (by omega)
  have hpayloadSize := h.payload_size
  have hpayloadUsed := h.payload_used
  have hpayload := s.payload.load_save (by omega) (by omega)
  have hlen := stream_get_be32_put_be32 (MAX_SERIAL_PAYLOAD + 1 : ℕ) (by omega) (by omega)
  have hdata : s.data0.length = 4001 := h.data0_length
  have hbytes : (FdeEmugl.Stream.read (MAX_SERIAL_PAYLOAD + 1) s.data0).1 = s.data0 :=
    List.take_of_length_le (by omega)
  have hfull : overwrite other.data0 0 s.data0 = s.data0 := by
    rw [overwrite_full (by omega), take_zero, List.nil_append]
  have hfits : ¬((MAX_SERIAL_PAYLOAD + 1 : ℕ) : ℤ) - 1 > MAX_SERIAL_PAYLOAD := by omega
  have hcount : ¬(s.data0.length : ℤ) ≠ (MAX_SERIAL_PAYLOAD + 1 : ℕ) := by
    rw [hdata]
    exact not_not.mpr rfl
  have hbool : decide ((if s.need_header then 1 else 0 : ℤ) ≠ 0) = s.need_header := by
    cases s.need_header <;> rfl
  simp only [save, load, append_assoc, hneed, hoverflow, hin_size, hin_channel, hheader, hpayload, hlen, if_neg hfits,
    hbytes, if_neg hcount, hfull, Int.toNat_natCast, hbool]

theorem SerialSession.Heard.reload (h : session.Heard stream) {data0 : List UInt8}
    (hdata : data0.length = MAX_SERIAL_PAYLOAD + 1) : session.reload data0 = some session := by
  have hrange : session.serial.InRange := by
    obtain ⟨_, _, hlistens⟩ | ⟨_, _, _, _, _, hdeaf⟩ := h
    · exact hlistens.inRange
    · exact hdeaf.inRange
  have hload := load_save hrange (.init data0) hdata
  unfold SerialSession.reload
  rw [hload]
  rfl

/-! ## Runs -/

/-- The buffer of a line has its size. -/
def SerialLabel.Sized : SerialLabel → Prop
  | .read _ => True
  | .reload data0 => data0.length = MAX_SERIAL_PAYLOAD + 1

instance (label : SerialLabel) : Decidable label.Sized :=
  match label with
  | .read _ => isTrue trivial
  | .reload _ => inferInstanceAs (Decidable (_ = _))

/-- No packet that should be delivered comes after a huge one. -/
def HugeLast (stream : List UInt8) : Prop :=
  ∀ first frame rest, serialFormat.frames.messages stream = first ++ frame :: rest → Huge frame.1 →
    rest.filterMap packetOf = []

theorem SerialSession.heard_init {data0 : List UInt8} (hdata : data0.length = MAX_SERIAL_PAYLOAD + 1) :
    (SerialSession.init data0).Heard [] := by
  refine Or.inl ⟨[], [], ⟨hdata, rfl, Nat.succ_pos 5, Nat.zero_le _, le_rfl, Nat.two_pow_pos 16, ?_, ?_⟩, rfl, rfl,
    Format.received_nil, nofun, rfl⟩
  · exact ⟨neg_one_lt_zero.le, Int.pow_pos (by decide)⟩
  · exact ⟨le_rfl, (by decide : (-1 : ℤ) < 2 ^ 16)⟩

/-- A list in two parts, the first of which has no such member. -/
theorem first_in_second {Item : Type*} {log more first rest : List Item} {item : Item} (bad : Item → Prop)
    (hgood : ∀ member ∈ log, ¬bad member) (hbad : bad item) (h : log ++ more = first ++ item :: rest) :
    ∃ middle, more = middle ++ item :: rest := by
  obtain ⟨middle, rfl, hmore⟩ | ⟨middle, rfl, hrest⟩ := List.append_eq_append_iff.mp h
  · exact ⟨middle, hmore⟩
  · cases middle with
    | nil => exact ⟨[], hrest.symm⟩
    | cons head middle =>
      obtain ⟨rfl, _⟩ := List.cons.inj hrest
      exact absurd hbad (hgood item (List.mem_append_right first (.head middle)))

/-- What has been delivered is right exactly if nothing comes after a huge packet. -/
theorem SerialSession.Heard.delivered_iff (h : session.Heard stream) :
    session.delivered = serialFormat.messages stream ↔ HugeLast stream := by
  rw [Format.messages_eq_frames]
  change session.delivered = (serialFormat.frames.messages stream).filterMap packetOf ↔ _
  obtain ⟨pending, log, hlistens⟩ | ⟨before, pending, after, log, rfl, hdeaf⟩ := h
  · have hlog := hlistens.received.messages_eq
    rw [← hlog]
    refine iff_of_true hlistens.delivered_eq fun first frame rest hframes hhuge ↦ ?_
    rw [← hlog] at hframes
    exact absurd hhuge (hlistens.not_huge frame (hframes ▸ List.mem_append_right first (.head rest)))
  · have hlog := hdeaf.received.messages_eq
    have hpending := hdeaf.received.leftover_eq
    have hmessages : serialFormat.frames.messages (before ++ after) = _ := Format.messages_append before after
    rw [← hlog, ← hpending] at hmessages
    obtain ⟨header, rest, hbytes, hsize, hhuge⟩ := hdeaf.huge
    have hnext := frames_next_header hsize rest
    rw [← hbytes] at hnext
    have hmore : serialFormat.frames.messages (pending ++ after) = [] ∨
        ∃ payload more, serialFormat.frames.messages (pending ++ after) = (header, payload) :: more := by
      split_ifs at hnext with hcomplete
      · rw [Format.messages_of_next hnext]
        exact Or.inr ⟨_, _, rfl⟩
      · exact Or.inl (Format.messages_of_next_none hnext)
    generalize serialFormat.frames.messages (pending ++ after) = more at *
    have hequal : session.delivered = (serialFormat.frames.messages (before ++ after)).filterMap packetOf ↔
        more.filterMap packetOf = [] := by
      rw [hmessages, List.filterMap_append, ← hdeaf.delivered_eq, List.self_eq_append_right]
    rw [hequal]
    constructor
    · rintro hnone first ⟨header', payload'⟩ rest' hframes hbad
      rw [hmessages] at hframes
      obtain ⟨middle, rfl⟩ := first_in_second (fun frame ↦ Huge frame.1) hdeaf.not_huge hbad hframes
      rw [List.filterMap_append, List.filterMap_cons, packetOf_eq, if_neg fun hwell ↦ hwell.2 hbad] at hnone
      exact (List.append_eq_nil_iff.mp hnone).2
    · intro hlast
      obtain rfl | ⟨payload, more, rfl⟩ := hmore
      · rfl
      · have hrest := hlast log (header, payload) more hmessages hhuge
        rw [List.filterMap_cons, packetOf_eq, if_neg fun hwell ↦ hwell.2 hhuge]
        exact hrest

/-- What has been accepted after some labels. -/
def bytesOf (labels : List SerialLabel) : List UInt8 := labels.flatMap fun label ↦
    match label with
    | .read bytes => bytes
    | .reload _ => []

theorem heard_run {labels : List SerialLabel} (hsized : ∀ label ∈ labels, label.Sized) (h : session.Heard stream) :
    ∃ last, run serialStep session labels = some last ∧ last.Heard (stream ++ bytesOf labels) := by
  induction labels generalizing session stream with
  | nil => exact ⟨session, rfl, by rwa [bytesOf, List.flatMap_nil, append_nil]⟩
  | cons label labels ih =>
    obtain ⟨hfirst, hrest⟩ := List.forall_mem_cons.mp hsized
    have hbytes (bytes : List UInt8) (hlabel : bytesOf [label] = bytes) :
        stream ++ bytesOf (label :: labels) = stream ++ bytes ++ bytesOf labels := by
      rw [← hlabel, append_assoc, bytesOf, bytesOf, bytesOf, ← List.flatMap_append]
      rfl
    cases label with
    | read bytes =>
      obtain ⟨next, hread, _, hnext⟩ := h.read bytes
      obtain ⟨last, hrun, hlast⟩ := ih hrest hnext
      refine ⟨last, ?_, ?_⟩
      · rw [run_cons, serialStep, hread, Option.bind_some, hrun]
      · rwa [hbytes bytes (append_nil bytes)]
    | reload data0 =>
      obtain ⟨last, hrun, hlast⟩ := ih hrest h
      refine ⟨last, ?_, ?_⟩
      · rw [run_cons, serialStep, h.reload hfirst, Option.bind_some, hrun]
      · rwa [hbytes [] rfl, append_nil]

/-- The line delivers the packets of the stream, exactly if none of them follows a huge one. Every call
returns. -/
theorem delivered_iff_hugeLast {data0 : List UInt8} (hdata : data0.length = MAX_SERIAL_PAYLOAD + 1)
    {labels : List SerialLabel} (hsized : ∀ label ∈ labels, label.Sized) :
    ∃ session, run serialStep (.init data0) labels = some session ∧
      (session.delivered = serialFormat.messages (bytesOf labels) ↔ HugeLast (bytesOf labels)) := by
  obtain ⟨session, hrun, hheard⟩ := heard_run hsized (SerialSession.heard_init hdata)
  exact ⟨session, hrun, hheard.delivered_iff⟩

/-- `010003abc`, a header without digits, one of length 0, and `ff0001d`, in pieces and with snapshots. -/
def shortPackets : List SerialLabel :=
  [.read [48, 49, 48, 48], .reload (List.replicate 4001 7), .read [48, 51, 97], .reload (List.replicate 4001 7),
    .read [98, 99, 48, 49, 48, 48, 48, 120], .read [48, 49, 48, 48, 48, 48, 102, 70, 48, 48, 48, 49], .read [100]]

theorem delivered_shortPackets : ∃ session,
    run serialStep (.init (List.replicate 4001 0)) shortPackets = some session ∧
      (session.delivered = serialFormat.messages (bytesOf shortPackets) ↔ HugeLast (bytesOf shortPackets)) ∧
      session.delivered = [(1, [97, 98, 99]), (255, [100])] := by
  have hsized : ∀ label ∈ shortPackets, label.Sized := by decide +kernel
  have hlast : (run serialStep (.init (List.replicate 4001 0)) shortPackets).any
      (fun session ↦ session.delivered = [(1, [97, 98, 99]), (255, [100])]) = true := by
    decide +kernel
  obtain ⟨session, hrun, hiff⟩ := delivered_iff_hugeLast (List.length_replicate (n := 4001)) hsized
  rw [hrun, Option.any_some] at hlast
  exact ⟨session, hrun, hiff, of_decide_eq_true hlast⟩

/-- A packet of 4001 bytes and one of one byte. -/
def hugePacket : List UInt8 := [48, 49, 48, 102, 97, 49] ++ List.replicate 4001 0 ++ [48, 49, 48, 48, 48, 49, 97]

/-- The second packet is not delivered. -/
theorem huge_not_skipped : ∃ session,
    run serialStep (.init (List.replicate 4001 0)) [.read hugePacket] = some session ∧
      session.delivered = [] ∧ serialFormat.messages hugePacket = [(1, [97])] := by
  have hfirst : serialFormat.next hugePacket = some (none, [48, 49, 48, 48, 48, 49, 97]) := by decide +kernel
  have hsecond : serialFormat.next [48, 49, 48, 48, 48, 49, 97] = some (some (1, [97]), []) := by decide +kernel
  have hmessages : serialFormat.messages hugePacket = [(1, [97])] := by
    rw [Format.messages_of_next hfirst, Format.messages_of_next hsecond, Format.messages_nil]
    rfl
  have hlast : (run serialStep (.init (List.replicate 4001 0)) [.read hugePacket]).any
      (fun session ↦ session.delivered = []) = true := by
    decide +kernel
  obtain ⟨session, hrun, hlast⟩ := (Option.any_eq_true _ _).mp hlast
  exact ⟨session, hrun, of_decide_eq_true hlast, hmessages⟩

end FdeEmugl.Qemud

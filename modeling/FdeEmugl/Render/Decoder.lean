import FdeEmugl.Base.Stream
import Mathlib.Data.List.GetD
import Mathlib.Data.List.TakeWhile

/-!
# The command decoders

The three decoders of a render thread, `gles1_decoder_context_t`, `gles2_decoder_context_t`
and `renderControl_decoder_context_t`, run the same loop over the buffer and differ in the
op codes of their `switch`. A packet is an op code, its own length and the arguments,
each header field a little-endian 32-bit word. What executing a packet does is not
modelled beyond the fact that it was dispatched, and checksums are taken to match.

The lemmas describe the loop on a buffer cut into complete packets and a tail at which it
stops; every buffer has exactly such a form.
-/

namespace FdeEmugl.Render

/-- In the order in which `RenderThread::main` calls them. -/
inductive Decoder where
  | gles1
  | gles2
  | renderControl
deriving Repr, DecidableEq

def Decoder.rank : Decoder → ℕ
  | .gles1 => 0
  | .gles2 => 1
  | .renderControl => 2

def word (buf : List UInt8) (offset : ℕ) : UInt32 :=
  Stream.joinBe32 (buf.getD (offset + 3) 0) (buf.getD (offset + 2) 0) (buf.getD (offset + 1) 0)
    (buf.getD offset 0)

def opcode (buf : List UInt8) : UInt32 := word buf 0

def packetLen (buf : List UInt8) : ℤ := (word buf 4).toInt32.toInt

/-- A packet handed to its command's code, and where it began. -/
structure Dispatch where
  offset : ℕ
  packet : List UInt8
deriving Repr, DecidableEq

/-- The loop of `decode`, `ptr` bytes into the buffer with `rest` ahead: the value returned and the
packets dispatched. Each turn takes at least 8 bytes, so fuel for every byte is enough. -/
def decodeLoop (owns : UInt32 → Bool) : ℕ → ℕ → List UInt8 → Int32 × List Dispatch
  | 0, ptr, _ => (Int32.ofNat ptr, [])
  | fuel + 1, ptr, rest =>
    if rest.length < 8 then (Int32.ofNat ptr, [])
    else if packetLen rest < 8 then (-1, [])
    else if rest.length < packetLen rest then (Int32.ofNat ptr, [])
    else if owns (opcode rest) then
      let length := (packetLen rest).toNat
      let (last, dispatched) := decodeLoop owns fuel (ptr + length) (rest.drop length)
      (last, ⟨ptr, rest.take length⟩ :: dispatched)
    else (Int32.ofNat ptr, [])

def decode (owns : UInt32 → Bool) (buf : List UInt8) : Int32 × List Dispatch :=
  if buf.length < 8 then (0, []) else decodeLoop owns buf.length 0 buf

/-! ## Packets -/

/-- A complete well-formed packet. -/
structure Packet where
  bytes : List UInt8
  header_le : 8 ≤ bytes.length
  packetLen_eq : packetLen bytes = bytes.length

/-- The bytes of packets that follow one another. -/
def bytesOf (packets : List Packet) : List UInt8 := packets.flatMap Packet.bytes

/-- Packets dispatched one after the other from an offset on. -/
def dispatches : ℕ → List Packet → List Dispatch
  | _, [] => []
  | offset, packet :: packets =>
    ⟨offset, packet.bytes⟩ :: dispatches (offset + packet.bytes.length) packets

/-- A header whose length field is too small. -/
def Malformed (tail : List UInt8) : Prop := 8 ≤ tail.length ∧ packetLen tail < 8

/-- No complete well-formed packet is ahead. -/
def Stops (tail : List UInt8) : Prop := tail.length < 8 ∨ packetLen tail < 8 ∨ tail.length < packetLen tail

instance (tail : List UInt8) : Decidable (Malformed tail) := inferInstanceAs (Decidable (_ ∧ _))

variable (offset : ℕ) {buf : List UInt8} (more : List UInt8) (owns : UInt32 → Bool) {tail : List UInt8}

@[simp] theorem bytesOf_nil : bytesOf [] = [] := rfl

@[simp] theorem bytesOf_cons (packet : Packet) (packets : List Packet) :
    bytesOf (packet :: packets) = packet.bytes ++ bytesOf packets := by
  simp [bytesOf]

@[simp] theorem bytesOf_append (first second : List Packet) :
    bytesOf (first ++ second) = bytesOf first ++ bytesOf second := by
  simp [bytesOf]

theorem bytesOf_pos {packets : List Packet} (h : packets ≠ []) : 0 < (bytesOf packets).length := by
  cases packets with
  | nil => exact absurd rfl h
  | cons packet packets =>
    have hheader := packet.header_le
    simp only [bytesOf_cons, List.length_append]
    omega

@[simp] theorem dispatches_nil : dispatches offset [] = [] := rfl

theorem dispatches_append (first second : List Packet) : dispatches offset (first ++ second) =
      dispatches offset first ++ dispatches (offset + (bytesOf first).length) second := by
  induction first generalizing offset with
  | nil => simp [dispatches]
  | cons packet packets ih => simp [dispatches, ih, Nat.add_assoc]

/-- Offsets from the start of the buffer become offsets from the start of the stream. -/
def Dispatch.shift (base : ℕ) (dispatch : Dispatch) : Dispatch := { dispatch with offset := base + dispatch.offset }

theorem map_shift_dispatches (base offset : ℕ) (packets : List Packet) :
    (dispatches offset packets).map (Dispatch.shift base) = dispatches (base + offset) packets := by
  induction packets generalizing offset with
  | nil => rfl
  | cons packet packets ih => simp [dispatches, Dispatch.shift, ih, Nat.add_assoc]

theorem offset_dispatches {offset : ℕ} {packets : List Packet} {dispatch : Dispatch}
    (h : dispatch ∈ dispatches offset packets) :
    offset ≤ dispatch.offset ∧ dispatch.offset < offset + (bytesOf packets).length := by
  induction packets generalizing offset with
  | nil => simp [dispatches] at h
  | cons packet packets ih =>
    have hheader := packet.header_le
    simp only [bytesOf_cons, List.length_append]
    obtain rfl | hrest := List.mem_cons.mp h
    · simp only
      omega
    · have hbounds := ih hrest
      omega

theorem pairwise_dispatches (packets : List Packet) :
    (dispatches offset packets).Pairwise fun first second ↦ first.offset < second.offset := by
  induction packets generalizing offset with
  | nil => exact List.Pairwise.nil
  | cons packet packets ih =>
    have hheader := packet.header_le
    refine List.Pairwise.cons ?_ (ih _)
    intro dispatch hmem
    have hbounds := offset_dispatches hmem
    simp only
    omega

/-! ## The loop on packets and a tail -/

theorem word_append {offset : ℕ} (h : offset + 4 ≤ buf.length) : word (buf ++ more) offset = word buf offset := by
  simp only [word]
  rw [List.getD_append _ _ _ _ (by omega), List.getD_append _ _ _ _ (by omega),
    List.getD_append _ _ _ _ (by omega), List.getD_append _ _ _ _ (by omega)]

theorem opcode_append (h : 8 ≤ buf.length) : opcode (buf ++ more) = opcode buf := word_append more (by omega)

theorem packetLen_append (h : 8 ≤ buf.length) : packetLen (buf ++ more) = packetLen buf := by
  rw [packetLen, word_append more (by omega), packetLen]

/-- The packets at the front of the buffer that a decoder takes. -/
def taken (owns : UInt32 → Bool) (packets : List Packet) : List Packet :=
  packets.takeWhile fun packet ↦ owns (opcode packet.bytes)

/-- The rest of the packets. -/
def leftOver (owns : UInt32 → Bool) (packets : List Packet) : List Packet :=
  packets.dropWhile fun packet ↦ owns (opcode packet.bytes)

theorem taken_append_leftOver (packets : List Packet) : taken owns packets ++ leftOver owns packets = packets :=
  List.takeWhile_append_dropWhile

theorem decodeLoop_stops {owns : UInt32 → Bool} (h : Stops tail) {fuel : ℕ} (hfuel : tail.length ≤ fuel)
    (ptr : ℕ) : decodeLoop owns fuel ptr tail = (if Malformed tail then -1 else Int32.ofNat ptr, []) := by
  cases fuel with
  | zero =>
    have hshort : ¬ Malformed tail := fun hbad ↦ by
      have hheader := hbad.1
      omega
    rw [decodeLoop, if_neg hshort]
  | succ fuel =>
    unfold decodeLoop
    by_cases hshort : tail.length < 8
    · have hnot : ¬ Malformed tail := fun hbad ↦ absurd hbad.1 (by omega)
      rw [if_pos hshort, if_neg hnot]
    by_cases hsmall : packetLen tail < 8
    · have hbad : Malformed tail := ⟨by omega, hsmall⟩
      rw [if_neg hshort, if_pos hsmall, if_pos hbad]
    · have hpartial : (tail.length : ℤ) < packetLen tail :=
        (h.resolve_left hshort).resolve_left hsmall
      have hnot : ¬ Malformed tail := fun hbad ↦ hsmall hbad.2
      rw [if_neg hshort, if_neg hsmall, if_pos hpartial, if_neg hnot]

theorem decodeLoop_cons (fuel ptr : ℕ) (packet : Packet) (rest : List UInt8) :
    decodeLoop owns (fuel + 1) ptr (packet.bytes ++ rest) =
      if owns (opcode packet.bytes) then
        ((decodeLoop owns fuel (ptr + packet.bytes.length) rest).1,
          ⟨ptr, packet.bytes⟩ :: (decodeLoop owns fuel (ptr + packet.bytes.length) rest).2)
      else (Int32.ofNat ptr, []) := by
  have hheader := packet.header_le
  have hlength := packet.packetLen_eq
  rw [decodeLoop, packetLen_append rest hheader, opcode_append rest hheader, hlength,
    List.length_append, if_neg (by omega), if_neg (by omega), if_neg (by push_cast; omega)]
  simp only [Int.toNat_natCast, List.take_left, List.drop_left]

/-- A decoder dispatches its packets at the front and returns their size; but it returns -1 when
nothing except a malformed header follows them. -/
theorem decodeLoop_packets (h : Stops tail) (packets : List Packet) {fuel : ℕ}
    (hfuel : (bytesOf packets ++ tail).length ≤ fuel) (ptr : ℕ) :
    decodeLoop owns fuel ptr (bytesOf packets ++ tail) = (if leftOver owns packets = [] ∧ Malformed tail then -1
        else Int32.ofNat (ptr + (bytesOf (taken owns packets)).length),
        dispatches ptr (taken owns packets)) := by
  induction packets generalizing fuel ptr with
  | nil =>
    rw [bytesOf_nil, List.nil_append] at hfuel ⊢
    rw [decodeLoop_stops h hfuel]
    simp [taken, leftOver]
  | cons packet packets ih =>
    have hheader := packet.header_le
    simp only [bytesOf_cons, List.length_append] at hfuel
    obtain ⟨fuel, rfl⟩ : ∃ less, fuel = less + 1 := ⟨fuel - 1, by omega⟩
    have hrest : (bytesOf packets ++ tail).length ≤ fuel := by
      rw [List.length_append]
      omega
    rw [bytesOf_cons, List.append_assoc, decodeLoop_cons, ih hrest]
    by_cases howned : owns (opcode packet.bytes) = true
    · simp [taken, leftOver, howned, dispatches, Nat.add_assoc]
    · simp [taken, leftOver, howned]

theorem decode_packets (h : Stops tail) (packets : List Packet) :
    decode owns (bytesOf packets ++ tail) = (if leftOver owns packets = [] ∧ Malformed tail then -1
        else Int32.ofNat (bytesOf (taken owns packets)).length,
        dispatches 0 (taken owns packets)) := by
  unfold decode
  split_ifs with hshort hbad
  · obtain ⟨_, hheader, _⟩ := hbad
    rw [List.length_append] at hshort
    omega
  · cases packets with
    | nil => simp [taken]
    | cons packet packets =>
      have hheader := packet.header_le
      simp only [bytesOf_cons, List.length_append] at hshort
      omega
  all_goals
    rw [decodeLoop_packets owns h packets le_rfl]
    simp [*]

/-- Every buffer is complete packets and a tail at which the loop stops. -/
theorem exists_packets (buf : List UInt8) : ∃ packets tail, buf = bytesOf packets ++ tail ∧ Stops tail := by
  induction hsize : buf.length using Nat.strongRecOn generalizing buf with
  | ind size ih =>
    by_cases hstops : Stops buf
    · exact ⟨[], buf, rfl, hstops⟩
    · simp only [Stops, not_or, not_lt] at hstops
      obtain ⟨hheader, hlength, hcomplete⟩ := hstops
      have hpos : 0 ≤ packetLen buf := by omega
      obtain ⟨length, hlen⟩ := Int.eq_ofNat_of_zero_le hpos
      rw [hlen] at hlength hcomplete
      have htake : (buf.take length).length = length := by
        rw [List.length_take]
        omega
      let packet : Packet := {
        bytes := buf.take length
        header_le := by omega
        packetLen_eq := by
          rw [htake, ← packetLen_append (buf.drop length) (by omega), List.take_append_drop]
          exact hlen }
      obtain ⟨packets, tail, hrest, htail⟩ := ih (buf.drop length).length
        (by rw [List.length_drop]; omega) (buf.drop length) rfl
      refine ⟨packet :: packets, tail, ?_, htail⟩
      rw [bytesOf_cons, List.append_assoc, ← hrest]
      exact (List.take_append_drop length buf).symm

end FdeEmugl.Render

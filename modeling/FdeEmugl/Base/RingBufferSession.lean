import FdeEmugl.Base.RingBuffer

/-!
# Interleavings of one producer and one consumer

A session is one ring with a thread that writes and a thread that reads. Both
sides may be anywhere inside a step when the other side moves. The history
fields collect the bytes whose write has been published and the bytes whose read
has been published; no program variable depends on them.

The positions start equal at an arbitrary 32-bit value, so runs that cross
2^32 are included.
-/

namespace FdeEmugl.Ring

open Cyclic Runs

inductive Producer where
  | idle
  | checked (data : ℕ → UInt8) (stepSize : UInt32)
  | copied (data : ℕ → UInt8) (stepSize : UInt32)

inductive Consumer where
  | idle
  | checked (stepSize : UInt32)
  | copied (stepSize : UInt32) (bytes : List UInt8)

structure Session where
  ring : RingBuffer
  buf : ℕ → UInt8
  producer : Producer
  consumer : Consumer
  written : List UInt8
  received : List UInt8

/-- Both positions at `start`, in a ring with any contents. -/
def Session.start (position : UInt32) (buf : ℕ → UInt8) : Session where
  ring := { writePos := position, readPos := position }
  buf := buf
  producer := .idle
  consumer := .idle
  written := []
  received := []

inductive Event where
  | checkWrite (data : ℕ → UInt8) (stepSize : UInt32)
  | copyIn
  | publishWrite
  | checkRead (stepSize : UInt32)
  | copyOut
  | publishRead

/-- The bytes `data[0 .. stepSize)` of the caller of a write step. -/
def bytesOf (data : ℕ → UInt8) (stepSize : UInt32) : List UInt8 := (List.range stepSize.toNat).map data

def sessionCanWrite (r : RingBuffer) : Option RingBufferView → UInt32 → Bool
  | some v => ringBufferViewCanWrite r v
  | none => ringBufferCanWrite r

def sessionCanRead (r : RingBuffer) : Option RingBufferView → UInt32 → Bool
  | some v => ringBufferViewCanRead r v
  | none => ringBufferCanRead r

/-- One event. A failed check leaves its thread idle: the call returns with `EAGAIN`. -/
def Session.step (v : Option RingBufferView) (event : Event) (s : Session) : Option Session :=
  match event, s.producer, s.consumer with
  | .checkWrite data stepSize, .idle, _ =>
    some (if sessionCanWrite s.ring v stepSize then
      { s with producer := .checked data stepSize } else s)
  | .copyIn, .checked data stepSize, _ =>
    some { s with
      buf := Ring.copyIn (viewOf v).size (viewOf v).mask s.ring s.buf data stepSize
      producer := .copied data stepSize }
  | .publishWrite, .copied data stepSize, _ =>
    some { s with
      ring := { s.ring with writePos := s.ring.writePos + stepSize }
      producer := .idle
      written := s.written ++ bytesOf data stepSize }
  | .checkRead stepSize, _, .idle =>
    some (if sessionCanRead s.ring v stepSize then
      { s with consumer := .checked stepSize } else s)
  | .copyOut, _, .checked stepSize =>
    some { s with
      consumer := .copied stepSize
        (Ring.copyOut (viewOf v).size (viewOf v).mask s.ring s.buf stepSize) }
  | .publishRead, _, .copied stepSize bytes =>
    some { s with
      ring := { s.ring with readPos := s.ring.readPos + stepSize }
      consumer := .idle
      received := s.received ++ bytes }
  | _, _, _ => none

/-! ## What holds between any two events -/

/-- The unread bytes lie in the ring in order, one slot stays free, and a thread inside a step
holds the room or the bytes that its check promised. -/
structure Session.Invariant (v : RingBufferView) (start : UInt32) (s : Session) : Prop where
  position : At start s.received.length s.written.length s.ring
  received_le : s.received.length ≤ s.written.length
  written_lt : s.written.length < s.received.length + v.size.toNat
  received_eq : s.received = s.written.take s.received.length
  contents : window v.size.toNat s.buf (start.toNat + s.received.length)
    (s.written.length - s.received.length) = s.written.drop s.received.length
  producer_room : ∀ data stepSize,
    s.producer = .checked data stepSize ∨ s.producer = .copied data stepSize →
      s.written.length + stepSize.toNat < s.received.length + v.size.toNat
  producer_copied : ∀ data stepSize, s.producer = .copied data stepSize →
    window v.size.toNat s.buf (start.toNat + s.written.length) stepSize.toNat = bytesOf data stepSize
  consumer_checked : ∀ stepSize, s.consumer = .checked stepSize →
    s.received.length + stepSize.toNat ≤ s.written.length
  consumer_copied : ∀ stepSize bytes, s.consumer = .copied stepSize bytes →
    bytes.length = stepSize.toNat ∧ s.received ++ bytes = s.written.take
      (s.received.length + stepSize.toNat) ∧ s.received.length + stepSize.toNat ≤ s.written.length

variable (r : RingBuffer)

section

variable (v : Option RingBufferView)

theorem sessionCanWrite_eq (stepSize : UInt32) :
    sessionCanWrite r v stepSize = canWrite (viewOf v).mask r stepSize := by
  cases v <;> rfl

theorem sessionCanRead_eq (stepSize : UInt32) : sessionCanRead r v stepSize = canRead (viewOf v).mask r stepSize := by
  cases v <;> rfl

theorem ringBufferAvailableWrite_eq :
    ringBufferAvailableWrite r v = (r.readPos - r.writePos - 1) &&& (viewOf v).mask := by
  cases v <;> rfl

theorem ringBufferAvailableRead_eq : ringBufferAvailableRead r v = (r.writePos - r.readPos) &&& (viewOf v).mask := by
  cases v <;> rfl

end

namespace Session.Invariant

variable {v : RingBufferView} {start : UInt32} {s : Session}

variable {stepSize : UInt32}

theorem of_start (v : RingBufferView) (start : UInt32) (buf : ℕ → UInt8) :
    (Session.start start buf).Invariant v start where
  position := by
    have hlt : start.toNat < 2 ^ 32 := start.toNat_lt
    simp only [Session.start, At, List.length_nil, Nat.add_zero]
    omega
  received_le := le_rfl
  written_lt := by simpa [Session.start] using v.size_pos
  received_eq := rfl
  contents := rfl
  producer_room := by simp [Session.start]
  producer_copied := by simp [Session.start]
  consumer_checked := by simp [Session.start]
  consumer_copied := by simp [Session.start]

section

variable (h : s.Invariant v start)
include h

theorem canWrite_iff (stepSize : UInt32) : canWrite v.mask s.ring stepSize = true ↔
      s.written.length + stepSize.toNat < s.received.length + v.size.toNat := by
  have hfree := h.position.free v h.received_le h.written_lt
  have hlt := h.written_lt
  simp only [canWrite, ge_iff_le, decide_eq_true_eq, UInt32.le_iff_toNat_le, hfree]
  omega

theorem canRead_iff (stepSize : UInt32) : canRead v.mask s.ring stepSize = true ↔
      s.received.length + stepSize.toNat ≤ s.written.length := by
  have hfilled := h.position.filled v h.received_le h.written_lt
  have hle := h.received_le
  simp only [canRead, ge_iff_le, decide_eq_true_eq, UInt32.le_iff_toNat_le, hfilled]
  omega

theorem checkWrite (data : ℕ → UInt8) (stepSize : UInt32) (hcan : canWrite v.mask s.ring stepSize = true) :
    { s with producer := .checked data stepSize : Session }.Invariant v start where
  position := h.position
  received_le := h.received_le
  written_lt := h.written_lt
  received_eq := h.received_eq
  contents := h.contents
  producer_room := by
    rintro data' stepSize' (hphase | hphase)
    · cases hphase
      exact (h.canWrite_iff stepSize).mp hcan
    · cases hphase
  producer_copied := by
    intro data' stepSize' hphase
    cases hphase
  consumer_checked := h.consumer_checked
  consumer_copied := h.consumer_copied

/-- The copy stays inside the free part of the ring, so nothing unread is overwritten. -/
theorem copyIn {data : ℕ → UInt8} (hphase : s.producer = .checked data stepSize) : { s with
      buf := Ring.copyIn v.size v.mask s.ring s.buf data stepSize
      producer := .copied data stepSize : Session }.Invariant v start := by
  have hroom := h.producer_room data stepSize (.inl hphase)
  have hle := h.received_le
  have hposition : s.ring.writePos.toNat % v.size.toNat = (start.toNat + s.written.length) % v.size.toNat := by
    rw [h.position.2, v.wrapped_mod]
  have hbuf : Ring.copyIn v.size v.mask s.ring s.buf data stepSize =
      copySplit v.size.toNat s.buf (start.toNat + s.written.length) data stepSize.toNat := by
    rw [copyIn_eq_copySplit, copySplit_of_modEq _ _ _ _ hposition]
  have hbehind : start.toNat + s.written.length =
      start.toNat + s.received.length + (s.written.length - s.received.length) := by omega
  rw [hbuf]
  exact {
    position := h.position
    received_le := h.received_le
    written_lt := h.written_lt
    received_eq := h.received_eq
    contents := by
      rw [← h.contents]
      simp only
      rw [hbehind]
      exact window_copySplit_behind _ _ _ _ _ v.size_pos (by omega)
    producer_room := by
      rintro data' stepSize' (hnext | hnext)
      · cases hnext
      · cases hnext
        exact hroom
    producer_copied := by
      intro data' stepSize' hnext
      cases hnext
      exact window_copySplit _ _ _ v.size_pos (by omega)
    consumer_checked := h.consumer_checked
    consumer_copied := h.consumer_copied }

end

theorem length_bytesOf (data : ℕ → UInt8) (stepSize : UInt32) : (bytesOf data stepSize).length = stepSize.toNat := by
  simp [bytesOf]

section

variable (h : s.Invariant v start)
include h

theorem publishWrite {data : ℕ → UInt8} (hphase : s.producer = .copied data stepSize) : { s with
      ring := { s.ring with writePos := s.ring.writePos + stepSize }
      producer := .idle
      written := s.written ++ bytesOf data stepSize : Session }.Invariant v start := by
  have hroom := h.producer_room data stepSize (.inr hphase)
  have hcopied := h.producer_copied data stepSize hphase
  have hle := h.received_le
  have hlength : (s.written ++ bytesOf data stepSize).length = s.written.length + stepSize.toNat := by
    rw [List.length_append, length_bytesOf]
  exact {
    position := by
      refine ⟨h.position.1, ?_⟩
      simp only [hlength, UInt32.toNat_add, h.position.2]
      omega
    received_le := by
      simp only [hlength]
      omega
    written_lt := by
      simp only [hlength]
      exact hroom
    received_eq := by
      simp only
      rw [List.take_append_of_le_length hle]
      exact h.received_eq
    contents := by
      simp only [hlength]
      rw [show s.written.length + stepSize.toNat - s.received.length =
          (s.written.length - s.received.length) + stepSize.toNat by omega,
        window_add, h.contents, List.drop_append_of_le_length hle]
      congr 1
      rw [← hcopied]
      congr 1
      omega
    producer_room := by simp
    producer_copied := by simp
    consumer_checked := by
      intro stepSize' hconsumer
      have hchecked := h.consumer_checked stepSize' hconsumer
      simp only [hlength]
      omega
    consumer_copied := by
      intro stepSize' bytes hconsumer
      obtain ⟨hbytes, heq, hbound⟩ := h.consumer_copied stepSize' bytes hconsumer
      refine ⟨hbytes, ?_, ?_⟩
      · rw [List.take_append_of_le_length hbound]
        exact heq
      · simp only [hlength]
        omega }

theorem checkRead (stepSize : UInt32) (hcan : canRead v.mask s.ring stepSize = true) :
    { s with consumer := .checked stepSize : Session }.Invariant v start where
  position := h.position
  received_le := h.received_le
  written_lt := h.written_lt
  received_eq := h.received_eq
  contents := h.contents
  producer_room := h.producer_room
  producer_copied := h.producer_copied
  consumer_checked := by
    intro stepSize' hphase
    cases hphase
    exact (h.canRead_iff stepSize).mp hcan
  consumer_copied := by
    intro stepSize' bytes hphase
    cases hphase

theorem copyOut (hphase : s.consumer = .checked stepSize) : { s with
      consumer := .copied stepSize
        (Ring.copyOut v.size v.mask s.ring s.buf stepSize) : Session }.Invariant v start := by
  have hchecked := h.consumer_checked stepSize hphase
  have hlt := h.written_lt
  have hposition : s.ring.readPos.toNat % v.size.toNat = (start.toNat + s.received.length) % v.size.toNat := by
    rw [h.position.1, v.wrapped_mod]
  have hbytes : Ring.copyOut v.size v.mask s.ring s.buf stepSize =
      (s.written.drop s.received.length).take stepSize.toNat := by
    obtain ⟨rest, hrest⟩ := Nat.exists_eq_add_of_le
      (show stepSize.toNat ≤ s.written.length - s.received.length by omega)
    rw [copyOut_eq_window _ _ _ _ (by omega), window_of_modEq _ _ _ hposition, ← h.contents,
      hrest, window_add, List.take_left' (by simp)]
  rw [hbytes]
  exact {
    position := h.position
    received_le := h.received_le
    written_lt := h.written_lt
    received_eq := h.received_eq
    contents := h.contents
    producer_room := h.producer_room
    producer_copied := h.producer_copied
    consumer_checked := by
      intro stepSize' hnext
      cases hnext
    consumer_copied := by
      intro stepSize' bytes hnext
      cases hnext
      refine ⟨?_, ?_, hchecked⟩
      · simp only [List.length_take, List.length_drop]
        omega
      · rw [List.take_add]
        congr 1
        exact h.received_eq }

theorem publishRead {bytes : List UInt8} (hphase : s.consumer = .copied stepSize bytes) : { s with
      ring := { s.ring with readPos := s.ring.readPos + stepSize }
      consumer := .idle
      received := s.received ++ bytes : Session }.Invariant v start := by
  obtain ⟨hbytes, heq, hbound⟩ := h.consumer_copied stepSize bytes hphase
  have hlt := h.written_lt
  have hlength : (s.received ++ bytes).length = s.received.length + stepSize.toNat := by
    rw [List.length_append, hbytes]
  exact {
    position := by
      refine ⟨?_, h.position.2⟩
      simp only [hlength, UInt32.toNat_add, h.position.1]
      omega
    received_le := by
      simp only [hlength]
      exact hbound
    written_lt := by
      simp only [hlength]
      omega
    received_eq := by
      simp only [hlength]
      exact heq
    contents := by
      have hsplit : s.written.length - s.received.length =
          stepSize.toNat + (s.written.length - (s.received.length + stepSize.toNat)) := by omega
      have hcontents := h.contents
      rw [hsplit, window_add] at hcontents
      simp only [hlength, ← List.drop_drop, ← hcontents]
      rw [List.drop_left' (by simp), Nat.add_assoc]
    producer_room := by
      intro data stepSize' hproducer
      have hroom := h.producer_room data stepSize' hproducer
      simp only [hlength]
      omega
    producer_copied := h.producer_copied
    consumer_checked := by simp
    consumer_copied := by simp }

end

end Session.Invariant

variable {start : UInt32} {s : Session}

/-- Each event of either thread keeps the invariant. -/
theorem Session.Invariant.step {v : Option RingBufferView} {event : Event} {next : Session}
    (h : s.Invariant (viewOf v) start) (hnext : s.step v event = some next) :
    next.Invariant (viewOf v) start := by
  unfold Session.step at hnext
  split at hnext <;> simp only [Option.some.injEq, reduceCtorEq] at hnext <;> subst hnext
  · rw [sessionCanWrite_eq]
    split_ifs with hcan
    · exact h.checkWrite _ _ hcan
    · exact h
  · exact h.copyIn (by assumption)
  · exact h.publishWrite (by assumption)
  · rw [sessionCanRead_eq]
    split_ifs with hcan
    · exact h.checkRead _ hcan
    · exact h
  · exact h.copyOut (by assumption)
  · exact h.publishRead (by assumption)

theorem Session.Invariant.run {v : Option RingBufferView} {buf : ℕ → UInt8} {events : List Event}
    (hrun : Runs.run (Session.step v) (Session.start start buf) events = some s) :
    s.Invariant (viewOf v) start :=
  invariant_of_run (fun _ _ _ h hnext ↦ h.step hnext)
    (Session.Invariant.of_start (viewOf v) start buf) hrun

/-! ## Steps without interleaving -/

/-- The events of one write step, and of one read step. -/
def writeEvents (data : ℕ → UInt8) (stepSize : UInt32) : List Event :=
  [.checkWrite data stepSize, .copyIn, .publishWrite]

def readEvents (stepSize : UInt32) : List Event := [.checkRead stepSize, .copyOut, .publishRead]

/-- A write step completes if and only if its check passes, and then it publishes its bytes. -/
theorem run_writeEvents (v : Option RingBufferView) (hidle : s.producer = .idle) (data : ℕ → UInt8)
    (stepSize : UInt32) :
    (run (Session.step v) s (writeEvents data stepSize)).map Session.written =
      if ringBufferAvailableWrite s.ring v ≥ stepSize then
        some (s.written ++ bytesOf data stepSize) else none := by
  have hcan : sessionCanWrite s.ring v stepSize = decide (ringBufferAvailableWrite s.ring v ≥ stepSize) := by
    rw [sessionCanWrite_eq, ringBufferAvailableWrite_eq]
    rfl
  by_cases havailable : ringBufferAvailableWrite s.ring v ≥ stepSize
  · simp [writeEvents, Session.step, hidle, hcan, havailable]
  · simp [writeEvents, Session.step, hidle, hcan, havailable]

/-- A read step completes if and only if its check passes, and then it hands out the next bytes. -/
theorem run_readEvents (v : Option RingBufferView) (h : s.Invariant (viewOf v) start)
    (hidle : s.consumer = .idle) (stepSize : UInt32) :
    (run (Session.step v) s (readEvents stepSize)).map Session.received =
      if ringBufferAvailableRead s.ring v ≥ stepSize then
        some (s.written.take (s.received.length + stepSize.toNat)) else none := by
  have hcan : sessionCanRead s.ring v stepSize = decide (ringBufferAvailableRead s.ring v ≥ stepSize) := by
    rw [sessionCanRead_eq, ringBufferAvailableRead_eq]
    rfl
  by_cases havailable : ringBufferAvailableRead s.ring v ≥ stepSize
  · have hcheck : canRead (viewOf v).mask s.ring stepSize = true := by
      rw [← sessionCanRead_eq, hcan]
      exact decide_eq_true havailable
    have hcopied := (h.checkRead stepSize hcheck).copyOut rfl
    obtain ⟨_, heq, _⟩ := hcopied.consumer_copied stepSize _ rfl
    rw [if_pos havailable, ← heq]
    simp [readEvents, Session.step, hidle, hcan, havailable]
  · simp [readEvents, Session.step, hidle, hcan, havailable]

/-- The events of `count` successive steps of one write call, from step `i` on. -/
def writeCallEvents (data : ℕ → UInt8) (stepSize : UInt32) : ℕ → UInt32 → List Event
  | 0, _ => []
  | count + 1, i => writeEvents (fun offset ↦ data ((i * stepSize).toNat + offset)) stepSize ++
      writeCallEvents data stepSize count (i + 1)

def readCallEvents (stepSize : UInt32) : ℕ → List Event
  | 0 => []
  | count + 1 => readEvents stepSize ++ readCallEvents stepSize count

theorem add_one_add_ofNat (i : UInt32) (count : ℕ) : i + 1 + UInt32.ofNat count = i + UInt32.ofNat (count + 1) := by
  rw [UInt32.add_assoc, UInt32.ofNat_add, UInt32.add_comm 1]
  rfl

/-- A whole write call is a run of its steps' events, up to the first step that does not fit. -/
theorem writeSteps_eq_run (v : Option RingBufferView) (data : ℕ → UInt8) (stepSize : UInt32)
    (remaining : ℕ) (i : UInt32) (s : Session) (hidle : s.producer = .idle) :
    ∃ count ≤ remaining, ∃ last, run (Session.step v) s (writeCallEvents data stepSize count i) = some last ∧
        writeSteps (viewOf v).size (viewOf v).mask data stepSize remaining i s.ring s.buf =
          (i + UInt32.ofNat count, last.ring, last.buf) := by
  induction remaining generalizing i s with
  | zero => exact ⟨0, le_rfl, s, rfl, by simp [writeSteps]⟩
  | succ remaining ih =>
    by_cases hcan : canWrite (viewOf v).mask s.ring stepSize = true
    · let source := fun offset ↦ data ((i * stepSize).toNat + offset)
      let next : Session := { s with
        ring := { s.ring with writePos := s.ring.writePos + stepSize }
        buf := copyIn (viewOf v).size (viewOf v).mask s.ring s.buf source stepSize
        producer := .idle
        written := s.written ++ bytesOf source stepSize }
      obtain ⟨count, hcount, last, hrun, hsteps⟩ := ih (i + 1) next rfl
      have hfirst : run (Session.step v) s (writeEvents source stepSize) = some next := by
        simp [writeEvents, Session.step, hidle, sessionCanWrite_eq, hcan, next]
      refine ⟨count + 1, by omega, last, ?_, ?_⟩
      · rw [writeCallEvents, run_append, hfirst]
        exact hrun
      · rw [← add_one_add_ofNat, ← hsteps]
        simp [writeSteps, hcan, next, source]
    · exact ⟨0, by omega, s, rfl, by simp [writeSteps, hcan]⟩

theorem readSteps_eq_run (v : Option RingBufferView) (stepSize : UInt32) (remaining : ℕ)
    (i : UInt32) (s : Session) (hidle : s.consumer = .idle) :
    ∃ count ≤ remaining, ∃ last, run (Session.step v) s (readCallEvents stepSize count) = some last ∧
        readSteps (viewOf v).size (viewOf v).mask s.buf stepSize remaining i s.ring s.received =
          (i + UInt32.ofNat count, last.ring, last.received) := by
  induction remaining generalizing i s with
  | zero => exact ⟨0, le_rfl, s, rfl, by simp [readSteps]⟩
  | succ remaining ih =>
    by_cases hcan : canRead (viewOf v).mask s.ring stepSize = true
    · let next : Session := { s with
        ring := { s.ring with readPos := s.ring.readPos + stepSize }
        consumer := .idle
        received := s.received ++ copyOut (viewOf v).size (viewOf v).mask s.ring s.buf stepSize }
      obtain ⟨count, hcount, last, hrun, hsteps⟩ := ih (i + 1) next rfl
      have hfirst : run (Session.step v) s (readEvents stepSize) = some next := by
        simp [readEvents, Session.step, hidle, sessionCanRead_eq, hcan, next]
      refine ⟨count + 1, by omega, last, ?_, ?_⟩
      · rw [readCallEvents, run_append, hfirst]
        exact hrun
      · rw [← add_one_add_ofNat, ← hsteps]
        simp [readSteps, hcan, next]
    · exact ⟨0, by omega, s, rfl, by simp [readSteps, hcan]⟩

/-- In every interleaving the bytes received are a prefix of the bytes written, the two counts of
available bytes add up to one less than the ring, and a step succeeds exactly when it fits. -/
theorem ring_fifo (v : Option RingBufferView) (start : UInt32) (buf : ℕ → UInt8)
    (events : List Event) (s : Session)
    (hrun : run (Session.step v) (Session.start start buf) events = some s) :
    s.received <+: s.written ∧
      (ringBufferAvailableRead s.ring v).toNat + (ringBufferAvailableWrite s.ring v).toNat =
        (viewOf v).size.toNat - 1 ∧
      (s.producer = .idle → ∀ data stepSize,
        (run (Session.step v) s (writeEvents data stepSize)).map Session.written =
          if stepSize ≤ ringBufferAvailableWrite s.ring v then
            some (s.written ++ bytesOf data stepSize) else none) ∧
      (s.consumer = .idle → ∀ stepSize,
        (run (Session.step v) s (readEvents stepSize)).map Session.received =
          if stepSize ≤ ringBufferAvailableRead s.ring v then
            some (s.written.take (s.received.length + stepSize.toNat)) else none) := by
  have h := Session.Invariant.run hrun
  refine ⟨?_, ?_, fun hidle data stepSize ↦ run_writeEvents v hidle data stepSize,
    fun hidle stepSize ↦ run_readEvents v h hidle stepSize⟩
  · rw [h.received_eq]
    exact List.take_prefix _ _
  · have hle := h.received_le
    have hlt := h.written_lt
    rw [ringBufferAvailableRead_eq, ringBufferAvailableWrite_eq,
      h.position.filled (viewOf v) hle hlt, h.position.free (viewOf v) hle hlt]
    omega

/-- Three bytes written and two of them read, with the positions crossing 2^32. -/
theorem ring_fifo_across_wrap :
    ∃ s, run (Session.step none) (Session.start 4294967294 fun _ ↦ 0)
        (writeEvents (fun offset ↦ offset.toUInt8 + 7) 3 ++ readEvents 2) = some s ∧
      s.received = [7, 8] ∧ s.received <+: s.written := by
  have hreceived : (run (Session.step none) (Session.start 4294967294 fun _ ↦ 0)
      (writeEvents (fun offset ↦ offset.toUInt8 + 7) 3 ++ readEvents 2)).map Session.received =
        some [7, 8] := by
    decide
  obtain ⟨s, hrun, hs⟩ := Option.map_eq_some_iff.mp hreceived
  exact ⟨s, hrun, hs, (ring_fifo none 4294967294 (fun _ ↦ 0) _ s hrun).1⟩

end FdeEmugl.Ring

import FdeEmugl.Library.Cyclic
import FdeEmugl.Library.Runs
import Mathlib.Tactic.Positivity

/-!
# The single producer, single consumer ring

`ring_buffer.c` keeps two free-running 32-bit positions and masks them to the
ring. The same code exists twice, for the array inside `struct ring_buffer` and
for a view of separately allocated memory; the shared definitions below take the
size and the mask, and each source function is that definition at its own pair.

A write step is three separate events, because the consumer runs between them:
the check that loads `read_pos`, the copy into the ring, and the atomic addition
that publishes the bytes. A read step is split the same way. Memory is
sequentially consistent here, which is what the source asks of its atomics.
-/

namespace FdeEmugl.Ring

open Cyclic Runs

/-- The two positions of `struct ring_buffer`; its bytes are passed beside it. -/
structure RingBuffer where
  writePos : UInt32
  readPos : UInt32
deriving Repr, DecidableEq

/-- `struct ring_buffer_view`, whose size is a power of two and whose mask is one less. -/
structure RingBufferView where
  size : UInt32
  mask : UInt32
  geometry : ∃ shift ≤ 31, size.toNat = 2 ^ shift ∧ mask.toNat = 2 ^ shift - 1

def ringBufferShift : ℕ := 11
def ringBufferSize : UInt32 := 2048
def ringBufferMask : UInt32 := ringBufferSize - 1

/-- The ring inside `struct ring_buffer` has the geometry of a view. -/
def staticView : RingBufferView where
  size := ringBufferSize
  mask := ringBufferMask
  geometry := ⟨ringBufferShift, by decide, rfl, rfl⟩

/-! ## Code shared by the ring and its views -/

def canWrite (mask : UInt32) (r : RingBuffer) (bytes : UInt32) : Bool :=
  ((r.readPos - r.writePos - 1) &&& mask) ≥ bytes

def canRead (mask : UInt32) (r : RingBuffer) (bytes : UInt32) : Bool := ((r.writePos - r.readPos) &&& mask) ≥ bytes

/-- The `memcpy` calls of one write step: two of them when the step crosses the end. -/
def copyIn (size mask : UInt32) (r : RingBuffer) (buf : ℕ → UInt8) (data : ℕ → UInt8)
    (stepSize : UInt32) : ℕ → UInt8 :=
  let availableAtEnd := size - (r.writePos &&& mask)
  if stepSize > availableAtEnd then
    let remaining := stepSize - availableAtEnd
    copy (copy buf (r.writePos &&& mask).toNat data availableAtEnd.toNat)
      ((r.writePos + availableAtEnd) &&& mask).toNat
      (fun offset ↦ data (availableAtEnd.toNat + offset)) remaining.toNat
  else
    copy buf (r.writePos &&& mask).toNat data stepSize.toNat

/-- The bytes one read step copies out. -/
def copyOut (size mask : UInt32) (r : RingBuffer) (buf : ℕ → UInt8) (stepSize : UInt32) : List UInt8 :=
  let availableAtEnd := size - (r.readPos &&& mask)
  if stepSize > availableAtEnd then
    let remaining := stepSize - availableAtEnd
    segment buf (r.readPos &&& mask).toNat availableAtEnd.toNat ++
      segment buf ((r.readPos + availableAtEnd) &&& mask).toNat remaining.toNat
  else
    segment buf (r.readPos &&& mask).toNat stepSize.toNat

/-- The loop of a whole write call: `remaining` further steps, `i` done. -/
def writeSteps (size mask : UInt32) (data : ℕ → UInt8) (stepSize : UInt32) :
    ℕ → UInt32 → RingBuffer → (ℕ → UInt8) → UInt32 × RingBuffer × (ℕ → UInt8)
  | 0, i, r, buf => (i, r, buf)
  | remaining + 1, i, r, buf =>
    if !canWrite mask r stepSize then
      (i, r, buf)
    else
      writeSteps size mask data stepSize remaining (i + 1) { r with writePos := r.writePos + stepSize }
        (copyIn size mask r buf (fun offset ↦ data ((i * stepSize).toNat + offset)) stepSize)

/-- The loop of a whole read call; `out` are the bytes already copied to the caller. -/
def readSteps (size mask : UInt32) (buf : ℕ → UInt8) (stepSize : UInt32) :
    ℕ → UInt32 → RingBuffer → List UInt8 → UInt32 × RingBuffer × List UInt8
  | 0, i, r, out => (i, r, out)
  | remaining + 1, i, r, out =>
    if !canRead mask r stepSize then
      (i, r, out)
    else
      readSteps size mask buf stepSize remaining (i + 1)
        { r with readPos := r.readPos + stepSize } (out ++ copyOut size mask r buf stepSize)

/-! ## The source functions -/

def getRingPos (index : UInt32) : UInt32 := index &&& ringBufferMask

def ringBufferCanWrite (r : RingBuffer) (bytes : UInt32) : Bool := canWrite ringBufferMask r bytes

def ringBufferCanRead (r : RingBuffer) (bytes : UInt32) : Bool := canRead ringBufferMask r bytes

def ringBufferWrite (r : RingBuffer) (buf data : ℕ → UInt8) (stepSize steps : UInt32) :
    UInt32 × RingBuffer × (ℕ → UInt8) :=
  writeSteps ringBufferSize ringBufferMask data stepSize steps.toNat 0 r buf

def ringBufferRead (r : RingBuffer) (buf : ℕ → UInt8) (stepSize steps : UInt32) : UInt32 × RingBuffer × List UInt8 :=
  readSteps ringBufferSize ringBufferMask buf stepSize steps.toNat 0 r []

def ringBufferViewGetRingPos (v : RingBufferView) (index : UInt32) : UInt32 := index &&& v.mask

def ringBufferViewCanWrite (r : RingBuffer) (v : RingBufferView) (bytes : UInt32) : Bool := canWrite v.mask r bytes

def ringBufferViewCanRead (r : RingBuffer) (v : RingBufferView) (bytes : UInt32) : Bool := canRead v.mask r bytes

def ringBufferViewWrite (r : RingBuffer) (v : RingBufferView) (buf data : ℕ → UInt8)
    (stepSize steps : UInt32) : UInt32 × RingBuffer × (ℕ → UInt8) :=
  writeSteps v.size v.mask data stepSize steps.toNat 0 r buf

def ringBufferViewRead (r : RingBuffer) (v : RingBufferView) (buf : ℕ → UInt8)
    (stepSize steps : UInt32) : UInt32 × RingBuffer × List UInt8 :=
  readSteps v.size v.mask buf stepSize steps.toNat 0 r []

def ringBufferAvailableRead (r : RingBuffer) : Option RingBufferView → UInt32
  | some v => ringBufferViewGetRingPos v (r.writePos - r.readPos)
  | none => getRingPos (r.writePos - r.readPos)

def ringBufferAvailableWrite (r : RingBuffer) : Option RingBufferView → UInt32
  | some v => ringBufferViewGetRingPos v (r.readPos - r.writePos - 1)
  | none => getRingPos (r.readPos - r.writePos - 1)

/-- The loop of `ring_buffer_advance_read`: `remaining` further steps, `i` done. -/
def advanceSteps (stepSize : UInt32) : ℕ → UInt32 → RingBuffer → UInt32 × RingBuffer
  | 0, i, r => (i, r)
  | remaining + 1, i, r =>
    if !ringBufferCanRead r stepSize then (i, r)
    else advanceSteps stepSize remaining (i + 1) { r with readPos := r.readPos + stepSize }

def ringBufferAdvanceRead (r : RingBuffer) (stepSize steps : UInt32) : UInt32 × RingBuffer :=
  advanceSteps stepSize steps.toNat 0 r

/-- Copies bytes out without taking them. For the ring without a view the source measures the room
at the end from `write_pos`, so a copy may run past the ring into the memory behind it. -/
def ringBufferCopyContents (r : RingBuffer) (buf : ℕ → UInt8) (v : Option RingBufferView)
    (wantedBytes : UInt32) : Option (List UInt8) :=
  let getPos := match v with
    | some v => ringBufferViewGetRingPos v
    | none => getRingPos
  let availableAtEnd := match v with
    | some v => v.size - ringBufferViewGetRingPos v r.readPos
    | none => ringBufferSize - getRingPos r.writePos
  if ringBufferAvailableRead r v < wantedBytes then none
  else if wantedBytes > availableAtEnd then
    let remaining := wantedBytes - availableAtEnd
    some (segment buf (getPos r.readPos).toNat availableAtEnd.toNat ++
      segment buf (getPos (r.readPos + availableAtEnd)).toNat remaining.toNat)
  else some (segment buf (getPos r.readPos).toNat wantedBytes.toNat)

/-- The most that a read or write of `bytes` bytes moves in one step. -/
def getStepSize (v : Option RingBufferView) (bytes : UInt32) : UInt32 :=
  let available := match v with
    | some v => v.size >>> 1
    | none => ringBufferSize >>> 1
  if available < bytes then available else bytes

/-! ## Positions -/

/-- The view whose size and mask a call uses. -/
def viewOf (v : Option RingBufferView) : RingBufferView := v.getD staticView

section

variable (v : RingBufferView)

theorem RingBufferView.toNat_and_mask (index : UInt32) : (index &&& v.mask).toNat = index.toNat % v.size.toNat := by
  obtain ⟨shift, _, hsize, hmask⟩ := v.geometry
  rw [UInt32.toNat_and, hmask, hsize, Nat.and_two_pow_sub_one_eq_mod]

theorem RingBufferView.size_pos : 0 < v.size.toNat := by
  obtain ⟨shift, _, hsize, _⟩ := v.geometry
  rw [hsize]
  positivity

/-- The counters wrap at a multiple of the ring size, so masking commutes with wrapping. -/
theorem RingBufferView.size_dvd : v.size.toNat ∣ 2 ^ 32 := by
  obtain ⟨shift, hshift, hsize, _⟩ := v.geometry
  rw [hsize]
  exact pow_dvd_pow 2 (by omega)

theorem RingBufferView.size_lt : v.size.toNat < 2 ^ 32 := v.size.toNat_lt

theorem RingBufferView.wrapped_mod (position : ℕ) : position % 2 ^ 32 % v.size.toNat = position % v.size.toNat :=
  Nat.mod_mod_of_dvd position v.size_dvd

end

/-- The ring that a pair of unbounded byte counts describes, from a common start. -/
def At (start : UInt32) (readCount writeCount : ℕ) (r : RingBuffer) : Prop :=
  r.readPos.toNat = (start.toNat + readCount) % 2 ^ 32 ∧ r.writePos.toNat = (start.toNat + writeCount) % 2 ^ 32

section Positions

variable {start : UInt32} {readCount writeCount : ℕ} {r : RingBuffer} (v : RingBufferView)

section

variable (h : At start readCount writeCount r) (hle : readCount ≤ writeCount)
  (hlap : writeCount < readCount + v.size.toNat)
include h hle hlap

theorem At.filled : ((r.writePos - r.readPos) &&& v.mask).toNat = writeCount - readCount := by
  have hsize := v.size_lt
  have hdiff : (r.writePos - r.readPos).toNat = writeCount - readCount := by
    rw [UInt32.toNat_sub, h.1, h.2]
    omega
  rw [v.toNat_and_mask, hdiff, Nat.mod_eq_of_lt (by omega)]

theorem At.free : ((r.readPos - r.writePos - 1) &&& v.mask).toNat = readCount + v.size.toNat - 1 - writeCount := by
  have hsize := v.size_lt
  have hpos := v.size_pos
  obtain ⟨laps, hlaps⟩ := v.size_dvd
  have hdiff : (r.readPos - r.writePos - 1).toNat = 2 ^ 32 - 1 - (writeCount - readCount) := by
    rw [UInt32.toNat_sub, UInt32.toNat_sub, h.1, h.2, UInt32.toNat_one]
    omega
  have hsplit : 2 ^ 32 - 1 - (writeCount - readCount) =
      (readCount + v.size.toNat - 1 - writeCount) + v.size.toNat * (laps - 1) := by
    have hlapsPos : 0 < laps := by
      rcases Nat.eq_zero_or_pos laps with rfl | hlapsPos
      · omega
      · exact hlapsPos
    have hmul : v.size.toNat * (laps - 1) + v.size.toNat = 2 ^ 32 := by
      rw [hlaps, ← Nat.mul_succ, Nat.succ_eq_add_one, Nat.sub_add_cancel hlapsPos]
    omega
  rw [v.toNat_and_mask, hdiff, hsplit, Nat.add_mul_mod_self_left, Nat.mod_eq_of_lt (by omega)]

end

end Positions

section

variable (v : RingBufferView)

theorem RingBufferView.toNat_availableAtEnd (position : UInt32) :
    (v.size - (position &&& v.mask)).toNat = roomAtEnd v.size.toNat position.toNat := by
  have hmask := v.toNat_and_mask position
  have hlt : position.toNat % v.size.toNat < v.size.toNat := Nat.mod_lt _ v.size_pos
  rw [UInt32.toNat_sub_of_le _ _ (UInt32.le_iff_toNat_le.mpr (by omega)), hmask]
  rfl

theorem RingBufferView.toNat_second_part (position : UInt32) :
    ((position + (v.size - (position &&& v.mask))) &&& v.mask).toNat =
      (position.toNat + roomAtEnd v.size.toNat position.toNat) % v.size.toNat := by
  rw [v.toNat_and_mask, UInt32.toNat_add, v.toNat_availableAtEnd, v.wrapped_mod]

theorem RingBufferView.toNat_remaining (position stepSize : UInt32)
    (h : roomAtEnd v.size.toNat position.toNat ≤ stepSize.toNat) :
    (stepSize - (v.size - (position &&& v.mask))).toNat = stepSize.toNat - roomAtEnd v.size.toNat position.toNat := by
  rw [UInt32.toNat_sub_of_le, v.toNat_availableAtEnd]
  rw [UInt32.le_iff_toNat_le, v.toNat_availableAtEnd]
  exact h

/-- The copies of a write step are the copy of one lap cut at the end of the ring. -/
theorem copyIn_eq_copySplit (r : RingBuffer) (buf data : ℕ → UInt8) (stepSize : UInt32) :
    copyIn v.size v.mask r buf data stepSize = copySplit v.size.toNat buf r.writePos.toNat data stepSize.toNat := by
  unfold copyIn copySplit
  simp only [gt_iff_lt, UInt32.lt_iff_toNat_lt, v.toNat_availableAtEnd, v.toNat_and_mask]
  split_ifs with hcut
  · have hremaining := v.toNat_remaining r.writePos stepSize hcut.le
    have hsecond := v.toNat_second_part r.writePos
    rw [v.toNat_and_mask] at hsecond
    rw [hremaining, hsecond]
  · rfl

theorem copyOut_eq_window (r : RingBuffer) (buf : ℕ → UInt8) (stepSize : UInt32)
    (hsize : stepSize.toNat ≤ v.size.toNat) :
    copyOut v.size v.mask r buf stepSize = window v.size.toNat buf r.readPos.toNat stepSize.toNat := by
  rw [← readSplit_eq_window buf r.readPos.toNat v.size_pos hsize]
  unfold copyOut readSplit
  simp only [gt_iff_lt, UInt32.lt_iff_toNat_lt, v.toNat_availableAtEnd, v.toNat_and_mask]
  split_ifs with hcut
  · have hremaining := v.toNat_remaining r.readPos stepSize hcut.le
    have hsecond := v.toNat_second_part r.readPos
    rw [v.toNat_and_mask] at hsecond
    rw [hremaining, hsecond]
  · rfl

end

end FdeEmugl.Ring

import FdeEmugl.Base.RingBuffer
import Mathlib.Data.UInt

/-!
# The geometry of a ring view

A view is made over memory of any size and uses the largest power of two that fits. The copies of a write or a
read are listed here with the cells that they touch, whatever the positions are: the other side of the ring can
store anything into its position between two steps.
-/

namespace FdeEmugl.Ring

open Cyclic

/-! ## Making a view -/

/-- The loop of `ring_buffer_calc_shift`. A shift by 32 bits has no value. -/
def shiftFrom (size : UInt32) : ℕ → UInt32 → Option UInt32
  | 0, _ => none
  | left + 1, shift => if (1 : UInt32) <<< shift < size then shiftFrom size left (shift + 1) else some shift

def ringBufferCalcShift (size : UInt32) : Option UInt32 :=
  (shiftFrom size 32 0).map fun shift ↦ if (1 : UInt32) <<< shift > size then shift - 1 else shift

theorem toNat_one_shiftLeft {shift : UInt32} (h : shift.toNat ≤ 31) :
    ((1 : UInt32) <<< shift).toNat = 2 ^ shift.toNat := by
  have hpow : 2 ^ shift.toNat ≤ 2 ^ 31 := Nat.pow_le_pow_right (by decide) h
  rw [UInt32.toNat_shiftLeft, UInt32.toNat_one, Nat.mod_eq_of_lt (by omega : shift.toNat < 32), Nat.one_shiftLeft]
  exact Nat.mod_eq_of_lt (by omega)

theorem geometry_of_shift {shift : UInt32} (h : shift.toNat ≤ 31) :
    ∃ bits ≤ 31, ((1 : UInt32) <<< shift).toNat = 2 ^ bits ∧ ((1 : UInt32) <<< shift - 1).toNat = 2 ^ bits - 1 := by
  have hsize := toNat_one_shiftLeft h
  have hpos : 1 ≤ 2 ^ shift.toNat := Nat.one_le_two_pow
  refine ⟨shift.toNat, h, hsize, ?_⟩
  rw [UInt32.toNat_sub_of_le, hsize, UInt32.toNat_one]
  rw [UInt32.le_iff_toNat_le, hsize, UInt32.toNat_one]
  exact hpos

/-- The size and the mask that both ways to make a view compute. -/
def viewOfSize (size : UInt32) : Option RingBufferView := (ringBufferCalcShift size).bind fun shift ↦
    if h : shift.toNat ≤ 31 then some ⟨1 <<< shift, 1 <<< shift - 1, geometry_of_shift h⟩ else none

def ringBufferInitViewOnly (size : UInt32) : Option RingBufferView := viewOfSize size

/-- The positions are set to zero. -/
def ringBufferViewInit (size : UInt32) : Option (RingBuffer × RingBufferView) :=
  (viewOfSize size).map fun v ↦ ({ writePos := 0, readPos := 0 }, v)

section Shift

variable {size : UInt32}

/-- Every power of two before the shift is less than the size. -/
theorem shiftFrom_spec (hsize : size.toNat ≤ 2 ^ 31) (left : ℕ) {shift : UInt32} (hshift : shift.toNat + left = 32)
    (hbefore : ∀ bits < shift.toNat, 2 ^ bits < size.toNat) (hle : shift.toNat ≤ 31) :
    ∃ found, shiftFrom size left shift = some found ∧ found.toNat ≤ 31 ∧ size.toNat ≤ 2 ^ found.toNat ∧
      ∀ bits < found.toNat, 2 ^ bits < size.toNat := by
  induction left generalizing shift with
  | zero => omega
  | succ left ih =>
    have hpow := toNat_one_shiftLeft hle
    rw [shiftFrom]
    split_ifs with hlt
    · rw [UInt32.lt_iff_toNat_lt, hpow] at hlt
      have hshort : shift.toNat < 31 := (Nat.pow_lt_pow_iff_right (by decide)).mp (hlt.trans_le hsize)
      have hnext : (shift + 1).toNat = shift.toNat + 1 := by
        rw [UInt32.toNat_add, UInt32.toNat_one]
        omega
      refine ih (by omega) (fun bits hbits ↦ ?_) (by omega)
      obtain hbits | rfl : bits < shift.toNat ∨ bits = shift.toNat := by omega
      · exact hbefore bits hbits
      · exact hlt
    · rw [UInt32.lt_iff_toNat_lt, hpow, not_lt] at hlt
      exact ⟨shift, rfl, hle, hlt, hbefore⟩

theorem ringBufferCalcShift_spec (hpos : 1 ≤ size.toNat) (hsize : size.toNat ≤ 2 ^ 31) :
    ∃ shift, ringBufferCalcShift size = some shift ∧ shift.toNat ≤ 31 ∧ 2 ^ shift.toNat ≤ size.toNat ∧
      size.toNat < 2 ^ (shift.toNat + 1) := by
  obtain ⟨found, hfound, hle, hsize, hbefore⟩ :=
    shiftFrom_spec hsize 32 (rfl : (0 : UInt32).toNat + 32 = 32) (fun bits hbits ↦
      absurd hbits (Nat.not_lt_zero bits))
      (by decide)
  have hpow := toNat_one_shiftLeft hle
  rw [ringBufferCalcShift, hfound, Option.map_some]
  split_ifs with hover
  · rw [gt_iff_lt, UInt32.lt_iff_toNat_lt, hpow] at hover
    have hzero : found.toNat ≠ 0 := by
      intro hzero
      rw [hzero] at hover
      omega
    have hbelow : (found - 1).toNat = found.toNat - 1 := by
      rw [UInt32.toNat_sub_of_le, UInt32.toNat_one]
      rw [UInt32.le_iff_toNat_le, UInt32.toNat_one]
      omega
    have hlt := hbefore (found.toNat - 1) (by omega)
    refine ⟨found - 1, rfl, by omega, ?_, ?_⟩
    · rw [hbelow]
      exact hlt.le
    · rw [hbelow, Nat.sub_add_cancel (by omega)]
      exact hover
  · rw [gt_iff_lt, UInt32.lt_iff_toNat_lt, hpow, not_lt] at hover
    refine ⟨found, rfl, hle, hover, hsize.trans_lt ?_⟩
    exact Nat.pow_lt_pow_right (by decide) (Nat.lt_succ_self _)

/-- The view is not larger than the memory under it. -/
theorem viewOfSize_spec (hpos : 1 ≤ size.toNat) (hsize : size.toNat ≤ 2 ^ 31) :
    ∃ v, viewOfSize size = some v ∧ v.size.toNat ≤ size.toNat := by
  obtain ⟨shift, hshift, hle, hpow, _⟩ := ringBufferCalcShift_spec hpos hsize
  rw [viewOfSize, hshift, Option.bind_some, dif_pos hle]
  refine ⟨_, rfl, ?_⟩
  rw [toNat_one_shiftLeft hle]
  exact hpow

end Shift

/-! ## The cells that are touched -/

/-- The first cell and the number of bytes of each `memcpy` of a step. -/
def stepSpans (size mask position stepSize : UInt32) : List (ℕ × ℕ) :=
  let availableAtEnd := size - (position &&& mask)
  if stepSize > availableAtEnd then
    let remaining := stepSize - availableAtEnd
    [((position &&& mask).toNat, availableAtEnd.toNat),
      (((position + availableAtEnd) &&& mask).toNat, remaining.toNat)]
  else [((position &&& mask).toNat, stepSize.toNat)]

def stepIndices (size mask position stepSize : UInt32) : List ℕ :=
  (stepSpans size mask position stepSize).flatMap fun span ↦ (List.range span.2).map fun offset ↦ span.1 + offset

/-- The cells of a whole write call. In step `i` the check loads `peer i` as the position of the reader. -/
def writeIndices (size mask stepSize : UInt32) (peer : ℕ → UInt32) : ℕ → ℕ → RingBuffer → List ℕ
  | 0, _, _ => []
  | remaining + 1, i, r =>
    if !canWrite mask { r with readPos := peer i } stepSize then []
    else stepIndices size mask r.writePos stepSize ++
      writeIndices size mask stepSize peer remaining (i + 1) { r with writePos := r.writePos + stepSize }

/-- The cells of a whole read call. In step `i` the check loads `peer i` as the position of the writer. -/
def readIndices (size mask stepSize : UInt32) (peer : ℕ → UInt32) : ℕ → ℕ → RingBuffer → List ℕ
  | 0, _, _ => []
  | remaining + 1, i, r =>
    if !canRead mask { r with writePos := peer i } stepSize then []
    else stepIndices size mask r.readPos stepSize ++
      readIndices size mask stepSize peer remaining (i + 1) { r with readPos := r.readPos + stepSize }

def ringBufferViewWriteIndices (r : RingBuffer) (v : RingBufferView) (peer : ℕ → UInt32) (stepSize steps : UInt32) :
    List ℕ := writeIndices v.size v.mask stepSize peer steps.toNat 0 r

def ringBufferViewReadIndices (r : RingBuffer) (v : RingBufferView) (peer : ℕ → UInt32) (stepSize steps : UInt32) :
    List ℕ := readIndices v.size v.mask stepSize peer steps.toNat 0 r

/-! ## The cells are those of the copies -/

section Copies

variable {size mask position stepSize : UInt32} {r : RingBuffer} {buf data : ℕ → UInt8} {index : ℕ}

theorem stepIndices_of_cut (h : stepSize > size - (position &&& mask)) : stepIndices size mask position stepSize =
      ((List.range (size - (position &&& mask)).toNat).map fun offset ↦ (position &&& mask).toNat + offset) ++
        (List.range (stepSize - (size - (position &&& mask))).toNat).map fun offset ↦
          ((position + (size - (position &&& mask))) &&& mask).toNat + offset := by
  simp only [stepIndices, stepSpans, if_pos h, List.flatMap_cons, List.flatMap_nil, List.append_nil]

theorem stepIndices_of_fits (h : ¬ stepSize > size - (position &&& mask)) : stepIndices size mask position stepSize =
      (List.range stepSize.toNat).map fun offset ↦ (position &&& mask).toNat + offset := by
  simp only [stepIndices, stepSpans, if_neg h, List.flatMap_cons, List.flatMap_nil, List.append_nil]

theorem mem_span {start length : ℕ} : (index ∈ (List.range length).map fun offset ↦ start + offset) ↔
    start ≤ index ∧ index < start + length := by
  rw [List.mem_map]
  constructor
  · rintro ⟨offset, hoffset, rfl⟩
    have hlt := List.mem_range.mp hoffset
    omega
  · intro h
    exact ⟨index - start, List.mem_range.mpr (by omega), by omega⟩

theorem copyIn_of_notMem (h : index ∉ stepIndices size mask r.writePos stepSize) :
    copyIn size mask r buf data stepSize index = buf index := by
  have houtside (start length : ℕ) (source cells : ℕ → UInt8)
      (hspan : index ∉ (List.range length).map fun offset ↦ start + offset) :
      copy cells start source length index = cells index := by
    rw [mem_span] at hspan
    exact copy_outside cells start source length (by omega)
  by_cases hcut : stepSize > size - (r.writePos &&& mask)
  · rw [stepIndices_of_cut hcut, List.mem_append, not_or] at h
    simp only [copyIn, if_pos hcut]
    rw [houtside _ _ _ _ h.2, houtside _ _ _ _ h.1]
  · rw [stepIndices_of_fits hcut] at h
    simp only [copyIn, if_neg hcut]
    exact houtside _ _ _ _ h

theorem copyOut_eq_map : copyOut size mask r buf stepSize = (stepIndices size mask r.readPos stepSize).map buf := by
  by_cases hcut : stepSize > size - (r.readPos &&& mask)
  · rw [stepIndices_of_cut hcut, List.map_append, List.map_map, List.map_map]
    simp only [copyOut, if_pos hcut]
    rfl
  · rw [stepIndices_of_fits hcut, List.map_map]
    simp only [copyOut, if_neg hcut]
    rfl

/-- A write call leaves every other cell as it was. -/
theorem writeSteps_of_notMem (remaining i : ℕ) (count : UInt32)
    (h : index ∉ writeIndices size mask stepSize (fun _ ↦ r.readPos) remaining i r) :
    (writeSteps size mask data stepSize remaining count r buf).2.2 index = buf index := by
  induction remaining generalizing i count r buf with
  | zero => rfl
  | succ remaining ih =>
    rw [writeIndices] at h
    rw [writeSteps]
    split_ifs at h ⊢ with hfull
    · rfl
    · rw [List.mem_append, not_or] at h
      rw [ih (i + 1) (count + 1) h.2, copyIn_of_notMem h.1]

/-- The bytes of a read call are those of its cells. -/
theorem readSteps_eq_map (remaining i : ℕ) (count : UInt32) (out : List UInt8) :
    (readSteps size mask buf stepSize remaining count r out).2.2 =
      out ++ (readIndices size mask stepSize (fun _ ↦ r.writePos) remaining i r).map buf := by
  induction remaining generalizing i count r out with
  | zero => exact (List.append_nil out).symm
  | succ remaining ih =>
    rw [readIndices, readSteps]
    split_ifs with hempty
    · exact (List.append_nil out).symm
    · rw [ih (i + 1), copyOut_eq_map, List.map_append, List.append_assoc]

end Copies

/-! ## The cells are inside -/

section Inside

variable (v : RingBufferView) {stepSize : UInt32} {index : ℕ}

theorem RingBufferView.stepIndices_lt {position : UInt32} (hstep : stepSize.toNat < v.size.toNat)
    (h : index ∈ stepIndices v.size v.mask position stepSize) : index < v.size.toNat := by
  have hlt : position.toNat % v.size.toNat < v.size.toNat := Nat.mod_lt _ v.size_pos
  have hroom : roomAtEnd v.size.toNat position.toNat = v.size.toNat - position.toNat % v.size.toNat := rfl
  by_cases hcut : stepSize > v.size - (position &&& v.mask)
  · rw [stepIndices_of_cut hcut, List.mem_append, mem_span, mem_span, v.toNat_second_part,
      roomAtEnd_wraps _ _ v.size_pos, v.toNat_availableAtEnd, v.toNat_and_mask] at h
    rw [gt_iff_lt, UInt32.lt_iff_toNat_lt, v.toNat_availableAtEnd] at hcut
    rw [v.toNat_remaining position stepSize hcut.le] at h
    omega
  · rw [stepIndices_of_fits hcut, mem_span, v.toNat_and_mask] at h
    rw [gt_iff_lt, UInt32.lt_iff_toNat_lt, v.toNat_availableAtEnd, not_lt] at hcut
    omega

/-- A step that passes a check is shorter than the view. -/
theorem RingBufferView.lt_size_of_le_mask {filled : UInt32} (h : stepSize ≤ filled &&& v.mask) :
    stepSize.toNat < v.size.toNat := by
  rw [UInt32.le_iff_toNat_le, v.toNat_and_mask] at h
  exact h.trans_lt (Nat.mod_lt _ v.size_pos)

theorem RingBufferView.writeIndices_lt (peer : ℕ → UInt32) (remaining i : ℕ) (r : RingBuffer)
    (h : index ∈ writeIndices v.size v.mask stepSize peer remaining i r) : index < v.size.toNat := by
  induction remaining generalizing i r with
  | zero => cases h
  | succ remaining ih =>
    rw [writeIndices] at h
    split_ifs at h with hfull
    · cases h
    · have hroom : stepSize.toNat < v.size.toNat := by
        rw [Bool.not_eq_true', Bool.not_eq_false] at hfull
        exact v.lt_size_of_le_mask (of_decide_eq_true hfull)
      obtain h | h := List.mem_append.mp h
      · exact v.stepIndices_lt hroom h
      · exact ih (i + 1) _ h

theorem RingBufferView.readIndices_lt (peer : ℕ → UInt32) (remaining i : ℕ) (r : RingBuffer)
    (h : index ∈ readIndices v.size v.mask stepSize peer remaining i r) : index < v.size.toNat := by
  induction remaining generalizing i r with
  | zero => cases h
  | succ remaining ih =>
    rw [readIndices] at h
    split_ifs at h with hempty
    · cases h
    · have hfilled : stepSize.toNat < v.size.toNat := by
        rw [Bool.not_eq_true', Bool.not_eq_false] at hempty
        exact v.lt_size_of_le_mask (of_decide_eq_true hempty)
      obtain h | h := List.mem_append.mp h
      · exact v.stepIndices_lt hfilled h
      · exact ih (i + 1) _ h

end Inside

/-- A view uses the largest power of two that fits into the memory. Both ways to make it give the same view, and
no write and no read touches a cell behind the memory, whatever the positions hold. -/
theorem view_fits (size : UInt32) (hpos : 1 ≤ size) (hsize : size ≤ 2 ^ 31) :
    ∃ shift v, ringBufferCalcShift size = some shift ∧ 2 ^ shift.toNat ≤ size.toNat ∧
      size.toNat < 2 ^ (shift.toNat + 1) ∧ ringBufferInitViewOnly size = some v ∧
      ringBufferViewInit size = some ({ writePos := 0, readPos := 0 }, v) ∧
      ∀ (r : RingBuffer) (peer : ℕ → UInt32) (stepSize steps : UInt32),
        (∀ index ∈ ringBufferViewWriteIndices r v peer stepSize steps, index < size.toNat) ∧
        ∀ index ∈ ringBufferViewReadIndices r v peer stepSize steps, index < size.toNat := by
  have hpos : 1 ≤ size.toNat := UInt32.le_iff_toNat_le.mp hpos
  have hsize : size.toNat ≤ 2 ^ 31 := UInt32.le_iff_toNat_le.mp hsize
  obtain ⟨shift, hshift, _, hpow, hnext⟩ := ringBufferCalcShift_spec hpos hsize
  obtain ⟨v, hview, hfits⟩ := viewOfSize_spec hpos hsize
  refine ⟨shift, v, hshift, hpow, hnext, hview, ?_, fun r peer stepSize steps ↦ ⟨?_, ?_⟩⟩
  · rw [ringBufferViewInit, hview, Option.map_some]
  · intro index h
    exact (v.writeIndices_lt peer _ _ r h).trans_le hfits
  · intro index h
    exact (v.readIndices_lt peer _ _ r h).trans_le hfits

theorem view_fits_3000 : ∃ shift v, ringBufferCalcShift 3000 = some shift ∧ 2 ^ shift.toNat ≤ 3000 ∧
    3000 < 2 ^ (shift.toNat + 1) ∧ ringBufferInitViewOnly 3000 = some v := by
  obtain ⟨shift, v, hshift, hle, hlt, hview, _⟩ := view_fits 3000 (by decide) (by decide)
  exact ⟨shift, v, hshift, hle, hlt, hview⟩

end FdeEmugl.Ring

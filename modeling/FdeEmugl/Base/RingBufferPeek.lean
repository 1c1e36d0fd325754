import FdeEmugl.Base.RingBufferSession

/-!
# Peeking into the ring

`ring_buffer_copy_contents` is meant to copy out what a read of as many bytes would return, without
taking it. It works out for itself where the readable bytes cross the end of the ring: with a view
from the read position, as a read does, and without one from the write position.
-/

namespace FdeEmugl.Ring

open Cyclic Runs
open RingBufferView

/-- The `memcpy` calls of a peek: where each of them starts in the ring, and its number of bytes. -/
def copyContentsSpans (r : RingBuffer) (v : Option RingBufferView) (wantedBytes : UInt32) : List (ℕ × ℕ) :=
  let getPos := match v with
    | some v => ringBufferViewGetRingPos v
    | none => getRingPos
  let availableAtEnd := match v with
    | some v => v.size - ringBufferViewGetRingPos v r.readPos
    | none => ringBufferSize - getRingPos r.writePos
  if ringBufferAvailableRead r v < wantedBytes then []
  else if wantedBytes > availableAtEnd then
    let remaining := wantedBytes - availableAtEnd
    [((getPos r.readPos).toNat, availableAtEnd.toNat), ((getPos (r.readPos + availableAtEnd)).toNat, remaining.toNat)]
  else [((getPos r.readPos).toNat, wantedBytes.toNat)]

/-- A read of all the wanted bytes in one step. -/
def readWanted (r : RingBuffer) (buf : ℕ → UInt8) (v : Option RingBufferView) (wantedBytes : UInt32) :
    UInt32 × RingBuffer × List UInt8 :=
  match v with
  | some v => ringBufferViewRead r v buf wantedBytes 1
  | none => ringBufferRead r buf wantedBytes 1

/-- The peek answers if there is enough to read, stays inside the ring, and copies what a read
returns. The ring is passed as a constant, so a peek cannot change it. -/
structure PeekIsRead (r : RingBuffer) (buf : ℕ → UInt8) (v : Option RingBufferView)
    (wantedBytes : UInt32) : Prop where
  answers : (ringBufferCopyContents r buf v wantedBytes).isSome ↔ ringBufferAvailableRead r v ≥ wantedBytes
  inside : ∀ span ∈ copyContentsSpans r v wantedBytes, span.1 + span.2 ≤ (viewOf v).size.toNat
  bytes : ∀ bytes ∈ ringBufferCopyContents r buf v wantedBytes,
    readWanted r buf v wantedBytes = (1, { r with readPos := r.readPos + wantedBytes }, bytes)

/-- Without a view the wanted bytes do not go on at the beginning of the ring. -/
def Contiguous (r : RingBuffer) (v : Option RingBufferView) (wantedBytes : UInt32) : Prop :=
  v = none → wantedBytes ≤ ringBufferAvailableRead r v →
    (getRingPos r.readPos).toNat + wantedBytes.toNat ≤ ringBufferSize.toNat

variable {r : RingBuffer} {buf : ℕ → UInt8} {v : Option RingBufferView} {wantedBytes : UInt32}

/-- The position from which a peek works out how much there is before the end of the ring. -/
def cutFrom (r : RingBuffer) : Option RingBufferView → UInt32
  | some _ => r.readPos
  | none => r.writePos

/-- The copies, in a ring of any size, when the end is seen from `position`. -/
def cutSpans (v : RingBufferView) (readPos position wantedBytes : UInt32) : List (ℕ × ℕ) :=
  if roomAtEnd v.size.toNat position.toNat < wantedBytes.toNat then
    [(readPos.toNat % v.size.toNat, roomAtEnd v.size.toNat position.toNat),
      ((readPos.toNat + roomAtEnd v.size.toNat position.toNat) % v.size.toNat,
        wantedBytes.toNat - roomAtEnd v.size.toNat position.toNat)]
  else [(readPos.toNat % v.size.toNat, wantedBytes.toNat)]

theorem copyContentsSpans_eq (h : ringBufferAvailableRead r v ≥ wantedBytes) :
    copyContentsSpans r v wantedBytes = cutSpans (viewOf v) r.readPos (cutFrom r v) wantedBytes := by
  have hsame : copyContentsSpans r v wantedBytes =
      if wantedBytes > (viewOf v).size - (cutFrom r v &&& (viewOf v).mask) then
        [((r.readPos &&& (viewOf v).mask).toNat, ((viewOf v).size - (cutFrom r v &&& (viewOf v).mask)).toNat),
          (((r.readPos + ((viewOf v).size - (cutFrom r v &&& (viewOf v).mask))) &&& (viewOf v).mask).toNat,
            (wantedBytes - ((viewOf v).size - (cutFrom r v &&& (viewOf v).mask))).toNat)]
      else [((r.readPos &&& (viewOf v).mask).toNat, wantedBytes.toNat)] := by
    cases v <;> exact if_neg (UInt32.not_lt.mpr h)
  rw [hsame]
  simp only [cutSpans, gt_iff_lt, UInt32.lt_iff_toNat_lt, toNat_availableAtEnd,
    toNat_and_mask]
  split_ifs with hcut
  · rw [toNat_remaining _ _ _ hcut.le, UInt32.toNat_add,
      toNat_availableAtEnd, wrapped_mod]
  · rfl

/-- The bytes of a peek are those of its copies. -/
theorem ringBufferCopyContents_eq (h : ringBufferAvailableRead r v ≥ wantedBytes) :
    ringBufferCopyContents r buf v wantedBytes =
      some ((copyContentsSpans r v wantedBytes).flatMap fun span ↦ segment buf span.1 span.2) := by
  have hless := UInt32.not_lt.mpr h
  cases v <;>
    simp only [ringBufferCopyContents, copyContentsSpans, if_neg hless] <;>
    split_ifs <;> simp

theorem isSome_ringBufferCopyContents :
    (ringBufferCopyContents r buf v wantedBytes).isSome ↔ ringBufferAvailableRead r v ≥ wantedBytes := by
  by_cases henough : ringBufferAvailableRead r v ≥ wantedBytes
  · rw [ringBufferCopyContents_eq henough]
    simpa using henough
  · have hless := UInt32.not_le.mp henough
    have hnone : ringBufferCopyContents r buf v wantedBytes = none := if_pos hless
    rw [hnone]
    simpa using hless

theorem readWanted_eq (h : ringBufferAvailableRead r v ≥ wantedBytes) : readWanted r buf v wantedBytes =
      (1, { r with readPos := r.readPos + wantedBytes },
        copyOut (viewOf v).size (viewOf v).mask r buf wantedBytes) := by
  have hcan : canRead (viewOf v).mask r wantedBytes = true := by
    rw [ringBufferAvailableRead_eq] at h
    exact decide_eq_true h
  have hsteps : readSteps (viewOf v).size (viewOf v).mask buf wantedBytes 1 0 r [] =
      (1, { r with readPos := r.readPos + wantedBytes },
        copyOut (viewOf v).size (viewOf v).mask r buf wantedBytes) := by
    simp [readSteps, hcan]
  cases v with
  | none => exact hsteps
  | some v => exact hsteps

theorem available_lt (r : RingBuffer) (v : Option RingBufferView) :
    (ringBufferAvailableRead r v).toNat < (viewOf v).size.toNat := by
  rw [ringBufferAvailableRead_eq, toNat_and_mask]
  exact Nat.mod_lt _ (viewOf v).size_pos

/-- Two positions at one place of the ring have nothing to read between them. -/
theorem available_eq_zero (v : Option RingBufferView)
    (h : r.readPos.toNat % (viewOf v).size.toNat = r.writePos.toNat % (viewOf v).size.toNat) :
    (ringBufferAvailableRead r v).toNat = 0 := by
  rw [ringBufferAvailableRead_eq, toNat_and_mask, UInt32.toNat_sub, wrapped_mod]
  have hdvd := (viewOf v).size_dvd
  have hlt := r.readPos.toNat_lt
  have hmod : r.readPos.toNat ≡ r.writePos.toNat [MOD (viewOf v).size.toNat] := h
  have hfull : 2 ^ 32 - r.readPos.toNat + r.writePos.toNat ≡
      2 ^ 32 - r.readPos.toNat + r.readPos.toNat [MOD (viewOf v).size.toNat] :=
    hmod.symm.add_left _
  rw [Nat.sub_add_cancel hlt.le] at hfull
  exact hfull.trans (Nat.modEq_zero_iff_dvd.mpr hdvd)

section Cut

variable {view : RingBufferView} {readPos position : UInt32}

/-- Wherever the cut is made, bytes that lie in one piece are copied as they lie. -/
theorem cutSpans_of_contiguous
    (h : readPos.toNat % view.size.toNat + wantedBytes.toNat ≤ view.size.toNat) (cells : ℕ → UInt8) :
    (∀ span ∈ cutSpans view readPos position wantedBytes, span.1 + span.2 ≤ view.size.toNat) ∧
      (cutSpans view readPos position wantedBytes).flatMap (fun span ↦ segment cells span.1 span.2) =
        window view.size.toNat cells readPos.toNat wantedBytes.toNat := by
  have hwhole : segment cells (readPos.toNat % view.size.toNat) wantedBytes.toNat =
      window view.size.toNat cells readPos.toNat wantedBytes.toNat :=
    segment_eq_window cells (by unfold roomAtEnd; omega)
  unfold cutSpans
  split_ifs with hcut
  · have hsecond : (readPos.toNat + roomAtEnd view.size.toNat position.toNat) % view.size.toNat =
        readPos.toNat % view.size.toNat + roomAtEnd view.size.toNat position.toNat := by
      apply index_before_end
      unfold roomAtEnd at hcut ⊢
      omega
    obtain ⟨rest, hrest⟩ := Nat.exists_eq_add_of_le hcut.le
    simp only [List.forall_mem_cons, List.not_mem_nil, List.flatMap_cons, List.flatMap_nil, List.append_nil, hsecond]
    refine ⟨⟨by omega, by omega, by simp⟩, ?_⟩
    rw [← hwhole, hrest, Nat.add_sub_cancel_left, ← segment_add]
  · simpa using ⟨h, hwhole⟩

/-- The cut of a read. -/
theorem cutSpans_read (hsize : wantedBytes.toNat ≤ view.size.toNat) (cells : ℕ → UInt8) :
    (∀ span ∈ cutSpans view readPos readPos wantedBytes, span.1 + span.2 ≤ view.size.toNat) ∧
      (cutSpans view readPos readPos wantedBytes).flatMap (fun span ↦ segment cells span.1 span.2) =
        window view.size.toNat cells readPos.toNat wantedBytes.toNat := by
  have hpos := Nat.mod_lt readPos.toNat view.size_pos
  rw [← readSplit_eq_window cells readPos.toNat view.size_pos hsize]
  unfold cutSpans readSplit
  simp only [roomAtEnd_wraps _ _ view.size_pos]
  split_ifs with hcut
  · simp only [List.forall_mem_cons, List.not_mem_nil, List.flatMap_cons, List.flatMap_nil, List.append_nil, and_true]
    unfold roomAtEnd at hcut ⊢
    exact ⟨by omega, by omega, by simp⟩
  · unfold roomAtEnd at hcut
    simp
    omega

/-- Bytes that go on at the beginning of the ring are looked for behind it if the cut is made
elsewhere. -/
theorem contiguous_of_inside
    (h : ∀ span ∈ cutSpans view readPos position wantedBytes, span.1 + span.2 ≤ view.size.toNat)
    (hne : readPos.toNat % view.size.toNat ≠ position.toNat % view.size.toNat) :
    readPos.toNat % view.size.toNat + wantedBytes.toNat ≤ view.size.toNat := by
  unfold cutSpans at h
  split_ifs at h with hcut
  · have hfirst := h _ (.head _)
    have hsecond := h _ (.tail _ (.head _))
    have hplace := Nat.mod_lt position.toNat view.size_pos
    have hbefore : roomAtEnd view.size.toNat position.toNat < roomAtEnd view.size.toNat readPos.toNat := by
      unfold roomAtEnd at hfirst ⊢
      omega
    rw [index_before_end hbefore] at hsecond
    omega
  · exact h _ (.head _)

end Cut

/-- A peek returns what a read would exactly when there is a view, or nothing to return, or the bytes
do not go on at the beginning of the ring. -/
theorem peekIsRead_iff_contiguous (r : RingBuffer) (buf : ℕ → UInt8) (v : Option RingBufferView)
    (wantedBytes : UInt32) : PeekIsRead r buf v wantedBytes ↔ Contiguous r v wantedBytes := by
  by_cases henough : ringBufferAvailableRead r v ≥ wantedBytes
  · have hsmall := available_lt r v
    have hle := UInt32.le_iff_toNat_le.mp henough
    have hread := copyOut_eq_window (viewOf v) r buf wantedBytes (by omega)
    have hpeek (hcopies : (∀ span ∈ cutSpans (viewOf v) r.readPos (cutFrom r v) wantedBytes,
          span.1 + span.2 ≤ (viewOf v).size.toNat) ∧
        (cutSpans (viewOf v) r.readPos (cutFrom r v) wantedBytes).flatMap
            (fun span ↦ segment buf span.1 span.2) =
          window (viewOf v).size.toNat buf r.readPos.toNat wantedBytes.toNat) :
        PeekIsRead r buf v wantedBytes := by
      refine ⟨isSome_ringBufferCopyContents, ?_, ?_⟩
      · rw [copyContentsSpans_eq henough]
        exact hcopies.1
      · intro bytes hbytes
        rw [ringBufferCopyContents_eq henough, copyContentsSpans_eq henough, hcopies.2,
          Option.mem_some_iff] at hbytes
        rw [readWanted_eq henough, hread, hbytes]
    cases v with
    | some v => exact iff_of_true (hpeek (cutSpans_read (by omega) buf)) (fun hnone ↦ nomatch hnone)
    | none =>
      have hplace : (getRingPos r.readPos).toNat = r.readPos.toNat % ringBufferSize.toNat :=
        staticView.toNat_and_mask r.readPos
      constructor
      · intro h _ _
        rw [hplace]
        by_cases hsame : r.readPos.toNat % (viewOf none).size.toNat =
            r.writePos.toNat % (viewOf none).size.toNat
        · have hzero := available_eq_zero none hsame
          have hlt := Nat.mod_lt r.readPos.toNat staticView.size_pos
          change r.readPos.toNat % ringBufferSize.toNat < ringBufferSize.toNat at hlt
          omega
        · have hinside := h.inside
          rw [copyContentsSpans_eq henough] at hinside
          exact contiguous_of_inside hinside hsame
      · intro h
        have hpieces := h rfl henough
        rw [hplace] at hpieces
        exact hpeek (cutSpans_of_contiguous hpieces buf)
  · have hnone : ringBufferCopyContents r buf v wantedBytes = none := if_pos (UInt32.not_le.mp henough)
    have hnothing : copyContentsSpans r v wantedBytes = [] := if_pos (UInt32.not_le.mp henough)
    refine iff_of_true ⟨isSome_ringBufferCopyContents, ?_, ?_⟩ fun _ hle ↦ absurd hle henough
    · rw [hnothing]
      simp
    · rw [hnone]
      simp

/-- Sixteen bytes, of which eight are before the end of the ring: the peek copies all sixteen from
there, the last eight of them from the memory behind the ring. -/
theorem peek_behind_ring :
    ∃ s, run (Session.step none) (Session.start 0 fun _ ↦ 0)
        (writeEvents (fun _ ↦ 1) 1020 ++ readEvents 1020 ++ writeEvents (fun _ ↦ 1) 1020 ++
          readEvents 1020 ++ writeEvents (fun _ ↦ 7) 16) = some s ∧
      ringBufferAvailableRead s.ring none = 16 ∧ copyContentsSpans s.ring none 16 = [(2040, 16)] ∧
      ¬ PeekIsRead s.ring s.buf none 16 := by
  have hring : (run (Session.step none) (Session.start 0 fun _ ↦ 0)
      (writeEvents (fun _ ↦ 1) 1020 ++ readEvents 1020 ++ writeEvents (fun _ ↦ 1) 1020 ++
        readEvents 1020 ++ writeEvents (fun _ ↦ 7) 16)).map Session.ring = some ⟨2056, 2040⟩ := by
    decide +kernel
  obtain ⟨s, hrun, hs⟩ := Option.map_eq_some_iff.mp hring
  refine ⟨s, hrun, ?_, ?_, fun h ↦ ?_⟩
  · rw [hs]
    decide
  · rw [hs]
    decide
  · have hinside := h.inside
    rw [hs] at hinside
    revert hinside
    decide

end FdeEmugl.Ring

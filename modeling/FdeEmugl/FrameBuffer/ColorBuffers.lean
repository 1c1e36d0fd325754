import FdeEmugl.Library.Expiry
import Mathlib.Order.Monotone.Basic

/-!
# Color buffers and their delayed close

The part of `FrameBuffer` that counts references to color buffers: the map
`m_colorbuffers`, the list `m_colorBufferDelayedCloseList` and the functions that close,
open and erase. A color buffer whose count reaches 0 is put on the list with the
time and erased when a later close finds it there for a second.

Every reading of `getUnixTime` takes the next value of the host's clock, so time may pass
between any two readings. `trace` records each decrement and each removal with the count
that it found; nothing reads it. `std::lower_bound` is written as the linear
search it agrees with on a list sorted by time, which the list always is.
-/

namespace FdeEmugl.Fb

open Expiry

abbrev HandleType := UInt32

/-- What the run of the program does not decide. -/
structure Host where
  m_refCountPipeEnabled : Bool
  m_noDelayCloseColorBufferEnabled : Bool
  apiLevel : ℤ
  clock : ℕ → ℕ

/-- A host of a recent guest, whose clock shows how often it was read. -/
def Host.counting : Host where
  m_refCountPipeEnabled := false
  m_noDelayCloseColorBufferEnabled := false
  apiLevel := 28
  clock := id

/-- The same with a clock that goes on with every fourth reading. -/
def Host.slow : Host := { Host.counting with clock := fun reads ↦ reads / 4 }

structure ColorBufferRef where
  refcount : UInt32
  opened : Bool
  closedTs : ℕ
deriving Repr, DecidableEq

inductive Trace where
  | decremented (handle : HandleType) (refcount : UInt32)
  | erased (handle : HandleType) (refcount : UInt32)
deriving Repr, DecidableEq

structure ColorBuffers where
  m_colorbuffers : HandleType → Option ColorBufferRef
  /-- `time` is the field `ts`, `key` the field `cbHandle`, which is 0 for an entry taken back. -/
  m_colorBufferDelayedCloseList : List (Entry HandleType)
  clockReads : ℕ
  trace : List Trace

def kColorBufferClosingDelaySec : ℕ := 1

namespace ColorBuffers

def new : ColorBuffers where
  m_colorbuffers := fun _ ↦ none
  m_colorBufferDelayedCloseList := []
  clockReads := 0
  trace := []

/-- `m_colorbuffers[handle] = ref`, or an assignment through an iterator. -/
def set (handle : HandleType) (ref : ColorBufferRef) (s : ColorBuffers) : ColorBuffers :=
  { s with m_colorbuffers := Function.update s.m_colorbuffers handle (some ref) }

/-- `m_colorbuffers.erase`. -/
def erase (handle : HandleType) (s : ColorBuffers) : ColorBuffers :=
  match s.m_colorbuffers handle with
  | none => s
  | some ref =>
    { s with
      m_colorbuffers := Function.update s.m_colorbuffers handle none
      trace := .erased handle ref.refcount :: s.trace }

def getUnixTime (host : Host) (s : ColorBuffers) : ℕ × ColorBuffers :=
  (host.clock s.clockReads, { s with clockReads := s.clockReads + 1 })

def eraseDelayedCloseColorBufferLocked (cb : HandleType) (ts : ℕ) (s : ColorBuffers) : ColorBuffers :=
  { s with m_colorBufferDelayedCloseList := clear 0 cb ts s.m_colorBufferDelayedCloseList }

/-- The body of the loop over the entries that are due. -/
def closeDue (s : ColorBuffers) (info : Entry HandleType) : ColorBuffers :=
  if info.key ≠ 0 then s.erase info.key else s

def performDelayedColorBufferCloseLocked (host : Host) (forced : Bool) (s : ColorBuffers) :
    ColorBuffers :=
  let (now, s) := s.getUnixTime host
  let due := fun info : Entry HandleType ↦
    forced || decide (info.time + kColorBufferClosingDelaySec ≤ now)
  let infos := s.m_colorBufferDelayedCloseList
  { (infos.takeWhile due).foldl closeDue s with m_colorBufferDelayedCloseList := infos.dropWhile due }

/-- The part of a close after the count has reached 0. -/
def closeLast (host : Host) (handle : HandleType) (ref : ColorBufferRef) (forced : Bool)
    (s : ColorBuffers) : Bool × ColorBuffers :=
  if forced then
    (true, (s.eraseDelayedCloseColorBufferLocked handle ref.closedTs).erase handle)
  else
    let (closedTs, s) := s.getUnixTime host
    (false,
      { s.set handle { ref with closedTs := closedTs } with
        m_colorBufferDelayedCloseList := s.m_colorBufferDelayedCloseList ++ [⟨closedTs, handle⟩] })

/-- `--refcount`, leaving a record. -/
def decrement (handle : HandleType) (ref : ColorBufferRef) (s : ColorBuffers) : ColorBuffers :=
  { s.set handle { ref with refcount := ref.refcount - 1 } with
    trace := .decremented handle ref.refcount :: s.trace }

/-- Whether the color buffer was erased right away, and what is left. -/
def closeColorBufferLocked (host : Host) (handle : HandleType) (forced : Bool) (s : ColorBuffers) :
    Bool × ColorBuffers :=
  if host.m_refCountPipeEnabled then (false, s)
  else
    let forced := forced || host.m_noDelayCloseColorBufferEnabled
    match s.m_colorbuffers handle with
    | none => (false, s)
    | some ref =>
      let s := s.decrement handle ref
      let ref := { ref with refcount := ref.refcount - 1 }
      let (deleted, s) := if ref.refcount = 0 then s.closeLast host handle ref forced else (false, s)
      (deleted, s.performDelayedColorBufferCloseLocked host false)

/-- Several closes in a row. -/
def closeAll (host : Host) (handles : List HandleType) (s : ColorBuffers) : ColorBuffers :=
  handles.foldl (fun s handle ↦ (s.closeColorBufferLocked host handle false).2) s

def markOpened (handle : HandleType) (ref : ColorBufferRef) (s : ColorBuffers) : ColorBuffers :=
  (s.eraseDelayedCloseColorBufferLocked handle ref.closedTs).set handle
    { ref with opened := true, closedTs := 0 }

/-- The color buffer's part of `openColorBuffer`, for a handle that is found. -/
def openRef (handle : HandleType) (ref : ColorBufferRef) (s : ColorBuffers) : ColorBuffers :=
  s.markOpened handle { ref with refcount := ref.refcount + 1 }

/-- The close of what is attached, if anything is. -/
def closeOld (host : Host) (old : HandleType) (s : ColorBuffers) : ColorBuffers :=
  if old ≠ 0 then (s.closeColorBufferLocked host old false).2 else s

/-- The color buffers' part of `setWindowSurfaceColorBuffer`, for a handle that is found: the close
of the old attachment comes before `c->second.refcount++`. `none` when that iterator has been
erased in between. -/
def attach (host : Host) (old handle : HandleType) (ref : ColorBufferRef) (s : ColorBuffers) :
    Option ColorBuffers :=
  let s := (s.markOpened handle ref).closeOld host old
  (s.m_colorbuffers handle).map fun ref ↦ s.set handle { ref with refcount := ref.refcount + 1 }

/-- `decColorBufferRefCountLocked`, used when references are counted by pipes. -/
def decColorBufferRefCountLocked (handle : HandleType) (s : ColorBuffers) : Bool × ColorBuffers :=
  match s.m_colorbuffers handle with
  | none => (false, s)
  | some ref =>
    if ref.refcount - 1 = 0 then (true, (s.decrement handle ref).erase handle)
    else (false, s.decrement handle ref)

/-- A color buffer as it is created. -/
def created : ColorBufferRef := ⟨1, false, 0⟩

/-! ## What the assignments change -/

section Api

variable (s : ColorBuffers) (handle : HandleType) (ref : ColorBufferRef)

variable {other : HandleType}

@[simp] theorem map_set_self : (s.set handle ref).m_colorbuffers handle = some ref := Function.update_self ..

theorem map_set_of_ne (h : other ≠ handle) : (s.set handle ref).m_colorbuffers other = s.m_colorbuffers other :=
  Function.update_of_ne h ..

@[simp] theorem map_erase_self : (s.erase handle).m_colorbuffers handle = none := by
  unfold erase
  split
  · assumption
  · exact Function.update_self ..

theorem map_erase_of_ne (h : other ≠ handle) : (s.erase handle).m_colorbuffers other = s.m_colorbuffers other := by
  unfold erase
  split
  · rfl
  · exact Function.update_of_ne h ..

@[simp] theorem list_erase : (s.erase handle).m_colorBufferDelayedCloseList = s.m_colorBufferDelayedCloseList := by
  unfold erase
  split <;> rfl

@[simp] theorem clockReads_erase : (s.erase handle).clockReads = s.clockReads := by
  unfold erase
  split <;> rfl

@[simp] theorem map_decrement_self : (s.decrement handle ref).m_colorbuffers handle =
    some { ref with refcount := ref.refcount - 1 } :=
  Function.update_self ..

theorem map_decrement_of_ne (h : other ≠ handle) :
    (s.decrement handle ref).m_colorbuffers other = s.m_colorbuffers other :=
  Function.update_of_ne h ..

end Api

/-! ## No operation but creation brings a handle to life -/

section Live

variable {s s' s'' : ColorBuffers} {handle : HandleType} {ref : ColorBufferRef}

/-- Every live handle of the second state is live in the first. -/
def LiveSubset (s s' : ColorBuffers) : Prop :=
  ∀ handle, (s'.m_colorbuffers handle).isSome = true → (s.m_colorbuffers handle).isSome = true

theorem LiveSubset.refl (s : ColorBuffers) : LiveSubset s s := fun _ h ↦ h

theorem LiveSubset.trans (h : LiveSubset s s') (h' : LiveSubset s' s'') : LiveSubset s s'' :=
  fun handle hlive ↦ h handle (h' handle hlive)

theorem liveSubset_set (hlive : s.m_colorbuffers handle = some ref) (ref' : ColorBufferRef) :
    LiveSubset s (s.set handle ref') := by
  intro other hother
  by_cases heq : other = handle
  · rw [heq, hlive]
    rfl
  · rwa [map_set_of_ne s handle ref' heq] at hother

theorem liveSubset_erase (s : ColorBuffers) (handle : HandleType) : LiveSubset s (s.erase handle) := by
  intro other hother
  by_cases heq : other = handle
  · simp [heq] at hother
  · rwa [map_erase_of_ne s handle heq] at hother

theorem liveSubset_foldl {α : Type*} {f : ColorBuffers → α → ColorBuffers}
    (hf : ∀ s item, LiveSubset s (f s item)) (items : List α) (s : ColorBuffers) :
    LiveSubset s (items.foldl f s) := by
  induction items generalizing s with
  | nil => exact .refl s
  | cons item items ih => exact (hf s item).trans (ih (f s item))

theorem liveSubset_closeDue (s : ColorBuffers) (info : Entry HandleType) : LiveSubset s (s.closeDue info) := by
  unfold closeDue
  split_ifs
  · exact liveSubset_erase s info.key
  · exact .refl s

theorem liveSubset_performDelayed (host : Host) (forced : Bool) (s : ColorBuffers) :
    LiveSubset s (s.performDelayedColorBufferCloseLocked host forced) := by
  exact liveSubset_foldl liveSubset_closeDue _ (s.getUnixTime host).2

theorem liveSubset_closeLast (host : Host) (hlive : s.m_colorbuffers handle = some ref)
    (ref' : ColorBufferRef) (forced : Bool) :
    LiveSubset s (s.closeLast host handle ref' forced).2 := by
  unfold closeLast
  split_ifs
  · exact liveSubset_erase (s.eraseDelayedCloseColorBufferLocked handle ref'.closedTs) handle
  · exact liveSubset_set (s := (s.getUnixTime host).2) hlive _

theorem liveSubset_decrement (hlive : s.m_colorbuffers handle = some ref) (ref' : ColorBufferRef) :
    LiveSubset s (s.decrement handle ref') :=
  liveSubset_set hlive _

theorem liveSubset_close (host : Host) (handle : HandleType) (forced : Bool) (s : ColorBuffers) :
    LiveSubset s (s.closeColorBufferLocked host handle forced).2 := by
  unfold closeColorBufferLocked
  split_ifs with hpipe
  · exact .refl s
  cases hlive : s.m_colorbuffers handle with
  | none => exact .refl s
  | some ref =>
    refine (liveSubset_decrement hlive ref).trans ?_
    simp only
    split_ifs with hlast
    · exact (liveSubset_closeLast host (map_decrement_self s handle ref) _ _).trans
        (liveSubset_performDelayed host false _)
    · exact liveSubset_performDelayed host false _

theorem liveSubset_closeAll (host : Host) (handles : List HandleType) (s : ColorBuffers) :
    LiveSubset s (closeAll host handles s) :=
  liveSubset_foldl (fun s handle ↦ liveSubset_close host handle false s) handles s

theorem liveSubset_markOpened (hlive : s.m_colorbuffers handle = some ref) (ref' : ColorBufferRef) :
    LiveSubset s (s.markOpened handle ref') :=
  liveSubset_set (s := s.eraseDelayedCloseColorBufferLocked handle ref'.closedTs) hlive _

theorem liveSubset_dec (handle : HandleType) (s : ColorBuffers) :
    LiveSubset s (s.decColorBufferRefCountLocked handle).2 := by
  unfold decColorBufferRefCountLocked
  cases hlive : s.m_colorbuffers handle with
  | none => exact .refl s
  | some ref =>
    simp only
    split_ifs
    · exact (liveSubset_decrement hlive ref).trans (liveSubset_erase _ handle)
    · exact liveSubset_decrement hlive ref

/-- The count goes up last, on a handle that is still live. -/
theorem liveSubset_increment {result : ColorBuffers} (h : ((s.m_colorbuffers handle).map fun ref ↦
      s.set handle { ref with refcount := ref.refcount + 1 }) = some result) :
    LiveSubset s result := by
  obtain ⟨ref, hlive, rfl⟩ := Option.map_eq_some_iff.mp h
  exact liveSubset_set hlive _

theorem liveSubset_attach {host : Host} {old : HandleType} {result : ColorBuffers}
    (hlive : s.m_colorbuffers handle = some ref)
    (h : s.attach host old handle ref = some result) : LiveSubset s result := by
  refine (liveSubset_markOpened hlive ref).trans (LiveSubset.trans ?_ (liveSubset_increment h))
  unfold closeOld
  split_ifs
  · exact liveSubset_close host old false _
  · exact .refl _

end Live

/-! ## What a close does to the counts -/

section Counts

variable {host : Host} {s : ColorBuffers} {handle other : HandleType} {ref ref' : ColorBufferRef}

variable {forced : Bool}

/-- The delayed close leaves a color buffer alone or removes it, and it removes whatever is due. -/
theorem of_map_foldl_closeDue {infos : List (Entry HandleType)}
    (h : (infos.foldl closeDue s).m_colorbuffers handle = some ref) :
    s.m_colorbuffers handle = some ref ∧ ∀ info ∈ infos, info.key = handle → handle = 0 := by
  induction infos generalizing s with
  | nil => exact ⟨h, fun _ hmem ↦ by cases hmem⟩
  | cons info infos ih =>
    obtain ⟨hlive, hrest⟩ := ih h
    unfold closeDue at hlive
    split_ifs at hlive with hkey
    · have hne : handle ≠ info.key := by
        rintro rfl
        simp at hlive
      rw [map_erase_of_ne s info.key hne] at hlive
      refine ⟨hlive, fun other hmem heq ↦ ?_⟩
      obtain rfl | hmem := List.mem_cons.mp hmem
      · exact absurd heq.symm hne
      · exact hrest other hmem heq
    · refine ⟨hlive, fun other hmem heq ↦ ?_⟩
      obtain rfl | hmem := List.mem_cons.mp hmem
      · rw [← heq]
        simpa using hkey
      · exact hrest other hmem heq

theorem clockReads_foldl_closeDue (infos : List (Entry HandleType)) (s : ColorBuffers) :
    (infos.foldl closeDue s).clockReads = s.clockReads := by
  induction infos generalizing s with
  | nil => rfl
  | cons info infos ih =>
    rw [List.foldl_cons, ih]
    unfold closeDue
    split_ifs
    · exact clockReads_erase s info.key
    · rfl

theorem clockReads_performDelayed (host : Host) (forced : Bool) (s : ColorBuffers) :
    (s.performDelayedColorBufferCloseLocked host forced).clockReads = s.clockReads + 1 :=
  clockReads_foldl_closeDue _ (s.getUnixTime host).2

theorem of_map_performDelayed
    (h : (s.performDelayedColorBufferCloseLocked host forced).m_colorbuffers handle = some ref) :
    s.m_colorbuffers handle = some ref :=
  (of_map_foldl_closeDue h).1

theorem of_map_closeLast (h : (s.closeLast host handle ref forced).2.m_colorbuffers other = some ref') :
    other = handle ∧ ref'.refcount = ref.refcount ∨ other ≠ handle ∧ s.m_colorbuffers other = some ref' := by
  unfold closeLast at h
  by_cases heq : other = handle
  · subst heq
    split_ifs at h
    · simp at h
    · rw [← Option.some.inj ((map_set_self ..).symm.trans h)]
      exact .inl ⟨rfl, rfl⟩
  · split_ifs at h
    · rw [map_erase_of_ne _ _ heq] at h
      exact .inr ⟨heq, h⟩
    · exact .inr ⟨heq, (map_set_of_ne _ _ _ heq).symm.trans h⟩

section

variable (hpipe : host.m_refCountPipeEnabled = false)
include hpipe

/-- A close takes one off the count of its color buffer and changes no other count. -/
theorem of_map_close (h : (s.closeColorBufferLocked host handle forced).2.m_colorbuffers other = some ref') :
    (other = handle ∧ ∃ ref, s.m_colorbuffers handle = some ref ∧ ref'.refcount = ref.refcount - 1) ∨
      other ≠ handle ∧ s.m_colorbuffers other = some ref' := by
  unfold closeColorBufferLocked at h
  simp only [hpipe, Bool.false_eq_true, if_false] at h
  cases hlive : s.m_colorbuffers handle with
  | none =>
    simp only [hlive] at h
    refine .inr ⟨?_, h⟩
    rintro rfl
    rw [hlive] at h
    cases h
  | some ref =>
    simp only [hlive] at h
    have hdecremented : other = handle ∧ ref'.refcount = ref.refcount - 1 ∨
        other ≠ handle ∧ (s.decrement handle ref).m_colorbuffers other = some ref' := by
      split_ifs at h
      · exact of_map_closeLast (of_map_performDelayed h)
      · have h := of_map_performDelayed h
        by_cases heq : other = handle
        · rw [heq, map_decrement_self] at h
          rw [← Option.some.inj h]
          exact .inl ⟨heq, rfl⟩
        · exact .inr ⟨heq, h⟩
    obtain ⟨heq, hcount⟩ | ⟨hne, hother⟩ := hdecremented
    · exact .inl ⟨heq, ref, rfl, hcount⟩
    · rw [map_decrement_of_ne s handle ref hne] at hother
      exact .inr ⟨hne, hother⟩

theorem of_map_closeOld {old : HandleType} (h : (s.closeOld host old).m_colorbuffers other = some ref') :
    (old ≠ 0 ∧ other = old ∧ ∃ ref, s.m_colorbuffers old = some ref ∧ ref'.refcount = ref.refcount - 1) ∨
      (old = 0 ∨ other ≠ old) ∧ s.m_colorbuffers other = some ref' := by
  unfold closeOld at h
  split_ifs at h with hold
  · exact (of_map_close hpipe h).imp (fun hclosed ↦ ⟨hold, hclosed⟩) fun hother ↦ ⟨.inr hother.1, hother.2⟩
  · exact .inr ⟨.inl (not_not.mp hold), h⟩

/-- Attaching a color buffer to where it is attached leaves its count as it is. -/
theorem count_attached {old : HandleType}
    (h : ((s.markOpened handle ref).closeOld host old).m_colorbuffers handle = some ref') :
    ref'.refcount + 1 = if old ≠ 0 ∧ old = handle then ref.refcount else ref.refcount + 1 := by
  have hmarked : (s.markOpened handle ref).m_colorbuffers handle =
      some { ref with opened := true, closedTs := 0 } := map_set_self ..
  obtain ⟨hold, rfl, found, hfound, hcount⟩ | ⟨hother, hfound⟩ := of_map_closeOld hpipe h
  · rw [if_pos ⟨hold, rfl⟩, hcount, ← Option.some.inj (hmarked.symm.trans hfound)]
    exact UInt32.sub_add_cancel ref.refcount 1
  · have hnot : ¬ (old ≠ 0 ∧ old = handle) := by
      rintro ⟨hold, rfl⟩
      exact hother.elim hold fun hne ↦ hne rfl
    rw [if_neg hnot, ← Option.some.inj (hmarked.symm.trans hfound)]

end

end Counts

/-! ## What is recorded -/

section Record

variable {host : Host} {s : ColorBuffers} {handle other : HandleType} {ref : ColorBufferRef}
  {refcount : UInt32}

variable {forced : Bool}

theorem decremented_of_erase (h : .decremented other refcount ∈ (s.erase handle).trace) :
    .decremented other refcount ∈ s.trace := by
  unfold erase at h
  split at h
  · exact h
  · exact (List.mem_cons.mp h).resolve_left nofun

theorem decremented_of_performDelayed
    (h : .decremented other refcount ∈ (s.performDelayedColorBufferCloseLocked host forced).trace) :
    .decremented other refcount ∈ s.trace := by
  have hfold : ∀ (infos : List (Entry HandleType)) (s : ColorBuffers),
      .decremented other refcount ∈ (infos.foldl closeDue s).trace →
      .decremented other refcount ∈ s.trace := by
    intro infos
    induction infos with
    | nil => exact fun _ hmem ↦ hmem
    | cons info infos ih =>
      intro s hmem
      have hmem := ih (s.closeDue info) hmem
      unfold closeDue at hmem
      split_ifs at hmem
      · exact decremented_of_erase hmem
      · exact hmem
  exact hfold _ (s.getUnixTime host).2 h

theorem decremented_of_closeLast (h : .decremented other refcount ∈ (s.closeLast host handle ref forced).2.trace) :
    .decremented other refcount ∈ s.trace := by
  unfold closeLast at h
  split_ifs at h
  · exact decremented_of_erase (s := s.eraseDelayedCloseColorBufferLocked handle ref.closedTs) h
  · exact h

/-- A close records one decrement, with the count that it found. -/
theorem decremented_of_close
    (h : .decremented other refcount ∈ (s.closeColorBufferLocked host handle forced).2.trace) :
    .decremented other refcount ∈ s.trace ∨ ∃ ref, s.m_colorbuffers handle = some ref ∧ refcount = ref.refcount := by
  unfold closeColorBufferLocked at h
  split_ifs at h
  · exact .inl h
  cases hlive : s.m_colorbuffers handle with
  | none =>
    simp only [hlive] at h
    exact .inl h
  | some ref =>
    simp only [hlive] at h
    have hdecremented : .decremented other refcount ∈ (s.decrement handle ref).trace := by
      split_ifs at h
      · exact decremented_of_closeLast (decremented_of_performDelayed h)
      · exact decremented_of_performDelayed h
    obtain heq | hmem := List.mem_cons.mp hdecremented
    · exact .inr ⟨ref, rfl, (Trace.decremented.inj heq).2⟩
    · exact .inl hmem

end Record

end ColorBuffers

end FdeEmugl.Fb

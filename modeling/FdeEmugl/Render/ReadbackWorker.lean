import FdeEmugl.Library.Runs

/-!
# ReadbackWorker: the mailbox of a recorded display

The posting thread reads frames back into the buffers of a display, the consumer maps one of
them and copies it out, and a flush copies the last frame into a buffer of its own. Each
critical section of `mLock` is one step; `getPixels` maps its buffer between its two critical
sections, which is a step as well. The contents of the buffers and the post callback are left
out: what is followed is which index is used when.
-/

namespace FdeEmugl.Readback

open Runs

structure RecordDisplay where
  mReadPixelsIndexEven : UInt32 := 0
  mReadPixelsIndexOdd : UInt32 := 1
  mPrevReadPixelsIndex : UInt32 := 1
  mMapCopyIndex : UInt32 := 0
  mIsCopying : Bool := false
  mBuffers : List UInt32 := []
  m_readbackCount : UInt32 := 0
deriving Repr, DecidableEq

/-- The last of the four buffers is used for duplicating a buffer on flush. -/
def RecordDisplay.new : RecordDisplay where
  mBuffers := List.replicate 4 0

namespace RecordDisplay

/-- A buffer that is being copied out is not one of the two that are read into. The fourth buffer
has no case of its own and leaves the indices as they are. -/
def chooseIndices (r : RecordDisplay) : RecordDisplay :=
  if r.mIsCopying then
    if r.mMapCopyIndex = 0 then { r with mReadPixelsIndexEven := 2, mReadPixelsIndexOdd := 1 }
    else if r.mMapCopyIndex = 1 then { r with mReadPixelsIndexEven := 0, mReadPixelsIndexOdd := 2 }
    else if r.mMapCopyIndex = 2 then { r with mReadPixelsIndexEven := 0, mReadPixelsIndexOdd := 1 }
    else r
  else
    { r with
      mReadPixelsIndexEven := 0
      mReadPixelsIndexOdd := 1
      mMapCopyIndex := r.mPrevReadPixelsIndex }

def readAt (r : RecordDisplay) : UInt32 :=
  if r.m_readbackCount % 2 = 0 then r.mReadPixelsIndexEven else r.mReadPixelsIndexOdd

/-- One turn of the loop of `doNextReadback`, with the index that `readbackAsync` is called on. -/
def doNextReadback (r : RecordDisplay) : UInt32 × RecordDisplay :=
  let r := r.chooseIndices
  (r.readAt, { r with m_readbackCount := r.m_readbackCount + 1, mPrevReadPixelsIndex := r.readAt })

/-- The index of the buffer that the last frame is copied into, if it is. -/
def flushPipeline (r : RecordDisplay) : Option UInt32 × RecordDisplay :=
  if r.mIsCopying then (none, r)
  else
    let back := UInt32.ofNat (r.mBuffers.length - 1)
    (some back, { r with mMapCopyIndex := back })

end RecordDisplay

/-! ## The threads -/

/-- What happens to the buffers, by index. -/
inductive Access where
  | readback (index : UInt32)
  | flush (index : UInt32)
  | map (index : UInt32)
  | unmap
deriving Repr, DecidableEq

/-- Where the consumer is in `getPixels`. -/
inductive Consumer where
  | idle
  | copying
  | mapping (index : UInt32)
deriving Repr, DecidableEq

structure System where
  display : RecordDisplay
  consumer : Consumer
  /-- The accesses so far, latest first. -/
  accesses : List Access
deriving Repr, DecidableEq

def System.new : System where
  display := .new
  consumer := .idle
  accesses := []

inductive Event where
  | doNextReadback
  | flushPipeline
  | getPixelsBegin
  | getPixelsMap
  | getPixelsEnd
deriving Repr, DecidableEq

def step : Event → System → Option System
  | .doNextReadback, s =>
    let (index, display) := s.display.doNextReadback
    some { s with display := display, accesses := .readback index :: s.accesses }
  | .flushPipeline, s =>
    let (index, display) := s.display.flushPipeline
    some { s with display := display, accesses := (index.map .flush).toList ++ s.accesses }
  | .getPixelsBegin, s =>
    if s.consumer = .idle then
      some { s with display := { s.display with mIsCopying := true }, consumer := .copying }
    else none
  | .getPixelsMap, s =>
    if s.consumer = .copying then
      some { s with
        consumer := .mapping s.display.mMapCopyIndex
        accesses := .map s.display.mMapCopyIndex :: s.accesses }
    else none
  | .getPixelsEnd, s =>
    match s.consumer with
    | .mapping _ =>
      some { s with
        display := { s.display with mIsCopying := false }
        consumer := .idle
        accesses := .unmap :: s.accesses }
    | _ => none

/-- The index of the latest `readbackAsync`. -/
def lastReadback : List Access → Option UInt32
  | [] => none
  | .readback index :: _ => some index
  | _ :: past => lastReadback past

/-- The index that is being mapped. -/
def mapped : List Access → Option UInt32
  | [] => none
  | .map index :: _ => some index
  | .unmap :: _ => none
  | _ :: past => mapped past

/-- A read uses neither the buffer of the read before it nor one that is mapped, a flush does not
write to a mapped buffer, and the buffer of the latest read is not mapped. -/
def Access.Allowed (size : ℕ) (past : List Access) : Access → Prop
  | .readback index => index.toNat < size ∧ lastReadback past ≠ some index ∧ mapped past ≠ some index
  | .flush index => index.toNat < size ∧ mapped past ≠ some index
  | .map index => index.toNat < size ∧ lastReadback past ≠ some index
  | .unmap => True

/-- Every access was allowed after those before it. -/
def AllAllowed (size : ℕ) : List Access → Prop
  | [] => True
  | access :: past => access.Allowed size past ∧ AllAllowed size past

/-! ## The indices -/

/-- The indices for even and for odd counts. -/
def IsPair (even odd : UInt32) : Prop := even = 0 ∧ odd = 1 ∨ even = 2 ∧ odd = 1 ∨ even = 0 ∧ odd = 2

namespace IsPair

variable {even odd : UInt32}

section

variable (h : IsPair even odd)
include h

theorem even_ne_one : even ≠ 1 := by
  rcases h with ⟨rfl, _⟩ | ⟨rfl, _⟩ | ⟨rfl, _⟩ <;> decide

theorem odd_ne_zero : odd ≠ 0 := by
  rcases h with ⟨_, rfl⟩ | ⟨_, rfl⟩ | ⟨_, rfl⟩ <;> decide

theorem even_ne_odd : even ≠ odd := by
  rcases h with ⟨rfl, rfl⟩ | ⟨rfl, rfl⟩ | ⟨rfl, rfl⟩ <;> decide

theorem three_ne : 3 ≠ even ∧ 3 ≠ odd := by
  rcases h with ⟨rfl, rfl⟩ | ⟨rfl, rfl⟩ | ⟨rfl, rfl⟩ <;> decide

theorem even_lt : even < 4 := by
  rcases h with ⟨rfl, _⟩ | ⟨rfl, _⟩ | ⟨rfl, _⟩ <;> decide

theorem odd_lt : odd < 4 := by
  rcases h with ⟨_, rfl⟩ | ⟨_, rfl⟩ | ⟨_, rfl⟩ <;> decide

end

end IsPair

/-- The state between two critical sections. -/
structure RecordDisplay.Mailbox (r : RecordDisplay) : Prop where
  size : r.mBuffers.length = 4
  pair : IsPair r.mReadPixelsIndexEven r.mReadPixelsIndexOdd
  prev_even : r.m_readbackCount % 2 = 0 → r.mPrevReadPixelsIndex = r.mReadPixelsIndexOdd
  prev_odd : ¬ r.m_readbackCount % 2 = 0 → r.mPrevReadPixelsIndex = r.mReadPixelsIndexEven
  map_lt : r.mMapCopyIndex < 4
  map_ne : r.mMapCopyIndex ≠ r.mPrevReadPixelsIndex
  -- the pair that goes with a mapped index changes the old pair on one side only
  map_zero : r.mMapCopyIndex = 0 → r.mReadPixelsIndexOdd = 1
  map_one : r.mMapCopyIndex = 1 → r.mReadPixelsIndexEven = 0

/-- The display as `chooseIndices` leaves it, with the old index `prev`. -/
structure RecordDisplay.Chosen (prev : UInt32) (r : RecordDisplay) : Prop where
  size : r.mBuffers.length = 4
  pair : IsPair r.mReadPixelsIndexEven r.mReadPixelsIndexOdd
  prev_ne : prev ≠ r.readAt
  map_lt : r.mMapCopyIndex < 4
  map_ne : r.mMapCopyIndex ≠ r.readAt
  map_zero : r.mMapCopyIndex = 0 → r.mReadPixelsIndexOdd = 1
  map_one : r.mMapCopyIndex = 1 → r.mReadPixelsIndexEven = 0

section Display

variable {r : RecordDisplay}

theorem mailbox_new : RecordDisplay.new.Mailbox where
  size := rfl
  pair := .inl ⟨rfl, rfl⟩
  prev_even _ := rfl
  prev_odd hodd := absurd rfl hodd
  map_lt := by decide
  map_ne := by decide
  map_zero _ := rfl
  map_one _ := rfl

/-- The parity alternates, also when the count wraps around. -/
theorem readbackCount_parity (count : UInt32) : (count + 1) % 2 = 0 ↔ ¬ count % 2 = 0 := by
  have hlt := count.toNat_lt
  simp only [← UInt32.toNat_inj, UInt32.toNat_mod, UInt32.toNat_add]
  change (count.toNat + 1) % 2 ^ 32 % 2 = 0 ↔ ¬ count.toNat % 2 = 0
  omega

theorem ne_readAt {index : UInt32} (heven : r.m_readbackCount % 2 = 0 → index ≠ r.mReadPixelsIndexEven)
    (hodd : ¬ r.m_readbackCount % 2 = 0 → index ≠ r.mReadPixelsIndexOdd) : index ≠ r.readAt := by
  unfold RecordDisplay.readAt
  split_ifs with hparity
  · exact heven hparity
  · exact hodd hparity

theorem RecordDisplay.Mailbox.prev_lt (h : r.Mailbox) : r.mPrevReadPixelsIndex < 4 := by
  by_cases hparity : r.m_readbackCount % 2 = 0
  · rw [h.prev_even hparity]
    exact h.pair.odd_lt
  · rw [h.prev_odd hparity]
    exact h.pair.even_lt

theorem RecordDisplay.Chosen.readAt_lt {prev : UInt32} (h : r.Chosen prev) : r.readAt < 4 := by
  unfold RecordDisplay.readAt
  split_ifs
  · exact h.pair.even_lt
  · exact h.pair.odd_lt

theorem chosen_of_copying (h : r.Mailbox) (hcopying : r.mIsCopying = true) :
    r.chooseIndices.Chosen r.mPrevReadPixelsIndex ∧ r.chooseIndices.mMapCopyIndex = r.mMapCopyIndex := by
  unfold RecordDisplay.chooseIndices
  rw [if_pos hcopying]
  split_ifs with hzero hone htwo
  · refine ⟨⟨h.size, .inr (.inl ⟨rfl, rfl⟩), ?_, h.map_lt, ?_, fun _ ↦ rfl, ?_⟩, rfl⟩
    · apply ne_readAt
      · intro heven
        rw [h.prev_even heven, h.map_zero hzero]
        simp
      · intro hodd
        rw [h.prev_odd hodd]
        exact h.pair.even_ne_one
    · rw [hzero]
      apply ne_readAt <;> intro _ <;> simp
    · intro hmap
      rw [hzero] at hmap
      cases hmap
  · refine ⟨⟨h.size, .inr (.inr ⟨rfl, rfl⟩), ?_, h.map_lt, ?_, ?_, fun _ ↦ rfl⟩, rfl⟩
    · apply ne_readAt
      · intro heven
        rw [h.prev_even heven]
        exact h.pair.odd_ne_zero
      · intro hodd
        rw [h.prev_odd hodd, h.map_one hone]
        simp
    · rw [hone]
      apply ne_readAt <;> intro _ <;> simp
    · intro hmap
      exact absurd hmap hzero
  · refine ⟨⟨h.size, .inl ⟨rfl, rfl⟩, ?_, h.map_lt, ?_, fun _ ↦ rfl, fun _ ↦ rfl⟩, rfl⟩
    · apply ne_readAt
      · intro heven
        rw [h.prev_even heven]
        exact h.pair.odd_ne_zero
      · intro hodd
        rw [h.prev_odd hodd]
        exact h.pair.even_ne_one
    · rw [htwo]
      apply ne_readAt <;> intro _ <;> simp
  · refine ⟨⟨h.size, h.pair, ?_, h.map_lt, ?_, h.map_zero, h.map_one⟩, rfl⟩
    · apply ne_readAt
      · intro heven
        rw [h.prev_even heven]
        exact h.pair.even_ne_odd.symm
      · intro hodd
        rw [h.prev_odd hodd]
        exact h.pair.even_ne_odd
    · -- only the fourth buffer is left, which no read uses
      apply ne_readAt
      · intro _
        rcases h.pair with ⟨heven, _⟩ | ⟨heven, _⟩ | ⟨heven, _⟩
        · rwa [heven]
        · rwa [heven]
        · rwa [heven]
      · intro _
        rcases h.pair with ⟨_, hodd⟩ | ⟨_, hodd⟩ | ⟨_, hodd⟩
        · rwa [hodd]
        · rwa [hodd]
        · rwa [hodd]

theorem chosen_of_not_copying (h : r.Mailbox) (hcopying : r.mIsCopying = false) :
    r.chooseIndices.Chosen r.mPrevReadPixelsIndex := by
  have hchoose : r.chooseIndices =
      { r with
        mReadPixelsIndexEven := 0, mReadPixelsIndexOdd := 1, mMapCopyIndex := r.mPrevReadPixelsIndex } := by
    unfold RecordDisplay.chooseIndices
    rw [if_neg (by simp [hcopying])]
  have hprev : r.mPrevReadPixelsIndex ≠ r.chooseIndices.readAt := by
    rw [hchoose]
    apply ne_readAt
    · intro heven
      rw [h.prev_even heven]
      exact h.pair.odd_ne_zero
    · intro hodd
      rw [h.prev_odd hodd]
      exact h.pair.even_ne_one
  have hlt : r.mPrevReadPixelsIndex < 4 := h.prev_lt
  rw [hchoose] at hprev ⊢
  exact ⟨h.size, .inl ⟨rfl, rfl⟩, hprev, hlt, hprev, fun _ ↦ rfl, fun _ ↦ rfl⟩

/-- A turn of the loop uses another index than the one before and than the one that is mapped. -/
theorem mailbox_doNextReadback (h : r.Mailbox) : r.doNextReadback.2.Mailbox ∧ r.doNextReadback.1 < 4 ∧
      r.doNextReadback.1 ≠ r.mPrevReadPixelsIndex := by
  have hchosen : r.chooseIndices.Chosen r.mPrevReadPixelsIndex := by
    cases hcopying : r.mIsCopying with
    | false => exact chosen_of_not_copying h hcopying
    | true => exact (chosen_of_copying h hcopying).1
  refine ⟨?_, hchosen.readAt_lt, hchosen.prev_ne.symm⟩
  exact {
    size := hchosen.size
    pair := hchosen.pair
    prev_even := by
      intro heven
      exact if_neg ((readbackCount_parity _).mp heven)
    prev_odd := by
      intro hodd
      exact if_pos (not_not.mp (mt (readbackCount_parity _).mpr hodd))
    map_lt := hchosen.map_lt
    map_ne := hchosen.map_ne
    map_zero := hchosen.map_zero
    map_one := hchosen.map_one }

theorem mMapCopyIndex_doNextReadback (h : r.Mailbox) (hcopying : r.mIsCopying = true) :
    r.doNextReadback.2.mMapCopyIndex = r.mMapCopyIndex :=
  (chosen_of_copying h hcopying).2

theorem frame_doNextReadback (r : RecordDisplay) :
    r.doNextReadback.2.mIsCopying = r.mIsCopying ∧ r.doNextReadback.2.mBuffers = r.mBuffers := by
  simp only [RecordDisplay.doNextReadback, RecordDisplay.chooseIndices]
  split_ifs <;> exact ⟨rfl, rfl⟩

/-- A flush that happens moves the map index to the fourth buffer. -/
theorem mailbox_flushed (h : r.Mailbox) : { r with mMapCopyIndex := 3 }.Mailbox where
  size := h.size
  pair := h.pair
  prev_even := h.prev_even
  prev_odd := h.prev_odd
  map_lt := by
    change (3 : UInt32) < 4
    decide
  map_ne := by
    by_cases hparity : r.m_readbackCount % 2 = 0
    · rw [h.prev_even hparity]
      exact h.pair.three_ne.2
    · rw [h.prev_odd hparity]
      exact h.pair.three_ne.1
  map_zero hmap := by cases hmap
  map_one hmap := by cases hmap

theorem flushPipeline_of_copying (hcopying : r.mIsCopying = true) : r.flushPipeline = (none, r) := if_pos hcopying

theorem flushPipeline_of_not_copying (h : r.Mailbox) (hcopying : r.mIsCopying = false) :
    r.flushPipeline = (some 3, { r with mMapCopyIndex := 3 }) := by
  unfold RecordDisplay.flushPipeline
  rw [if_neg (by simp [hcopying]), h.size]
  rfl

end Display

/-! ## Runs -/

/-- The state of the threads between two steps, and what the accesses have been. -/
structure System.Invariant (s : System) : Prop where
  display : s.display.Mailbox
  copying : s.consumer ≠ .idle → s.display.mIsCopying = true
  mapping : ∀ index, s.consumer = .mapping index → index = s.display.mMapCopyIndex
  mapped : ∀ index, mapped s.accesses = some index → s.consumer = .mapping index
  last : ∀ index, lastReadback s.accesses = some index → index = s.display.mPrevReadPixelsIndex
  allowed : AllAllowed s.display.mBuffers.length s.accesses

section Runs

variable {s next : System}

theorem invariant_new : System.new.Invariant where
  display := mailbox_new
  copying hconsumer := absurd rfl hconsumer
  mapping _ hconsumer := by cases hconsumer
  mapped _ hmapped := by cases hmapped
  last _ hlast := by cases hlast
  allowed := trivial

section

variable (h : s.Invariant)
include h

theorem System.Invariant.mapped_eq {index : UInt32} (hmapped : Readback.mapped s.accesses = some index) :
    index = s.display.mMapCopyIndex ∧ s.display.mIsCopying = true := by
  have hconsumer := h.mapped index hmapped
  refine ⟨h.mapping index hconsumer, h.copying ?_⟩
  rw [hconsumer]
  nofun

theorem invariant_doNextReadback (hstep : step .doNextReadback s = some next) : next.Invariant := by
  obtain ⟨hmailbox, hlt, hne⟩ := mailbox_doNextReadback h.display
  obtain ⟨hcopying, hbuffers⟩ := frame_doNextReadback s.display
  rw [← Option.some.inj hstep]
  exact {
    display := hmailbox
    copying := by
      intro hconsumer
      exact hcopying.trans (h.copying hconsumer)
    mapping := by
      intro index hconsumer
      have hbusy : s.display.mIsCopying = true := h.copying (by rw [hconsumer]; nofun)
      exact (h.mapping index hconsumer).trans (mMapCopyIndex_doNextReadback h.display hbusy).symm
    mapped := h.mapped
    last := by
      intro index hlast
      exact (Option.some.inj hlast).symm
    allowed := by
      change AllAllowed s.display.doNextReadback.2.mBuffers.length
        (.readback s.display.doNextReadback.1 :: s.accesses)
      rw [hbuffers]
      refine ⟨⟨?_, ?_, ?_⟩, h.allowed⟩
      · rw [h.display.size]
        exact hlt
      · intro hlast
        exact hne (h.last _ hlast)
      · intro hmapped
        -- the mapped index is still the map index, and the read does not use that one
        obtain ⟨hindex, hbusy⟩ := h.mapped_eq hmapped
        apply hmailbox.map_ne
        rw [mMapCopyIndex_doNextReadback h.display hbusy, ← hindex]
        rfl }

theorem invariant_flushPipeline (hstep : step .flushPipeline s = some next) : next.Invariant := by
  cases hcopying : s.display.mIsCopying with
  | true =>
    simp only [step, flushPipeline_of_copying hcopying] at hstep
    exact Option.some.inj hstep ▸ h
  | false =>
    simp only [step, flushPipeline_of_not_copying h.display hcopying] at hstep
    have hidle : s.consumer = .idle := by
      by_contra hbusy
      rw [h.copying hbusy] at hcopying
      cases hcopying
    have hunmapped : Readback.mapped s.accesses = none := by
      by_contra hmapped
      obtain ⟨index, hindex⟩ := Option.ne_none_iff_exists'.mp hmapped
      rw [(h.mapped_eq hindex).2] at hcopying
      cases hcopying
    rw [← Option.some.inj hstep]
    exact {
      display := mailbox_flushed h.display
      copying := by
        intro hconsumer
        exact absurd hidle hconsumer
      mapping := by
        intro index hconsumer
        rw [hidle] at hconsumer
        cases hconsumer
      mapped := h.mapped
      last := h.last
      allowed := by
        refine ⟨⟨?_, ?_⟩, h.allowed⟩
        · rw [h.display.size]
          decide
        · change Readback.mapped s.accesses ≠ some 3
          rw [hunmapped]
          nofun }

theorem invariant_getPixelsBegin (hstep : step .getPixelsBegin s = some next) : next.Invariant := by
  simp only [step] at hstep
  split_ifs at hstep with hidle
  rw [← Option.some.inj hstep]
  exact {
    display := ⟨h.display.size, h.display.pair, h.display.prev_even, h.display.prev_odd, h.display.map_lt,
      h.display.map_ne, h.display.map_zero, h.display.map_one⟩
    copying := fun _ ↦ rfl
    mapping := nofun
    mapped := by
      intro index hmapped
      rw [h.mapped index hmapped] at hidle
      cases hidle
    last := h.last
    allowed := h.allowed }

theorem invariant_getPixelsMap (hstep : step .getPixelsMap s = some next) : next.Invariant := by
  simp only [step] at hstep
  split_ifs at hstep with hconsumer
  rw [← Option.some.inj hstep]
  exact {
    display := h.display
    copying := fun _ ↦ h.copying (by rw [hconsumer]; nofun)
    mapping := fun index hindex ↦ (Consumer.mapping.inj hindex).symm
    mapped := fun index hindex ↦ congrArg Consumer.mapping (Option.some.inj hindex)
    last := h.last
    allowed := by
      refine ⟨⟨?_, ?_⟩, h.allowed⟩
      · rw [h.display.size]
        exact h.display.map_lt
      · intro hlast
        exact h.display.map_ne (h.last _ hlast) }

theorem invariant_getPixelsEnd (hstep : step .getPixelsEnd s = some next) : next.Invariant := by
  simp only [step] at hstep
  split at hstep
  case h_2 => cases hstep
  rw [← Option.some.inj hstep]
  exact {
    display := ⟨h.display.size, h.display.pair, h.display.prev_even, h.display.prev_odd, h.display.map_lt,
      h.display.map_ne, h.display.map_zero, h.display.map_one⟩
    copying := fun hconsumer ↦ absurd rfl hconsumer
    mapping := nofun
    mapped := nofun
    last := h.last
    allowed := ⟨trivial, h.allowed⟩ }

end

theorem invariant_step (event : Event) (s next : System) (h : s.Invariant)
    (hstep : step event s = some next) : next.Invariant := by
  cases event with
  | doNextReadback => exact invariant_doNextReadback h hstep
  | flushPipeline => exact invariant_flushPipeline h hstep
  | getPixelsBegin => exact invariant_getPixelsBegin h hstep
  | getPixelsMap => exact invariant_getPixelsMap h hstep
  | getPixelsEnd => exact invariant_getPixelsEnd h hstep

/-- In every interleaving consecutive reads use different buffers, no buffer is written while it is
mapped, the buffer of the latest read is not mapped, and every index is in range. -/
theorem mailbox_accesses (events : List Event) (s : System)
    (hrun : run step .new events = some s) :
    AllAllowed s.display.mBuffers.length s.accesses ∧
      s.display.mReadPixelsIndexEven.toNat < s.display.mBuffers.length ∧
      s.display.mReadPixelsIndexOdd.toNat < s.display.mBuffers.length ∧
      s.display.mPrevReadPixelsIndex.toNat < s.display.mBuffers.length ∧
      s.display.mMapCopyIndex.toNat < s.display.mBuffers.length := by
  have h := invariant_of_run invariant_step invariant_new hrun
  rw [h.display.size]
  exact ⟨h.display.size ▸ h.allowed, h.display.pair.even_lt, h.display.pair.odd_lt, h.display.prev_lt,
    h.display.map_lt⟩

/-- The consumer copies a flushed frame while reads go on. -/
def flushedEvents : List Event :=
  [.doNextReadback, .flushPipeline, .getPixelsBegin, .doNextReadback, .getPixelsMap, .doNextReadback,
    .flushPipeline, .doNextReadback, .getPixelsEnd, .doNextReadback]

theorem mailbox_accesses_flushed :
    ∃ s, run step .new flushedEvents = some s ∧
      s.accesses =
        [.readback 0, .unmap, .readback 1, .readback 0, .map 3, .readback 1, .flush 3, .readback 0] ∧
      AllAllowed s.display.mBuffers.length s.accesses := by
  refine ⟨_, rfl, by decide, ?_⟩
  exact (mailbox_accesses flushedEvents _ rfl).1

end Runs

end FdeEmugl.Readback

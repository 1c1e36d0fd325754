import FdeEmugl.Base.BufferQueue

/-!
# RenderChannelImpl: a cached channel state

The channel between a guest pipe and a render thread: two queues under one lock, the state of
the channel as the guest sees it, and the set of events the guest waits for. `mState` is a cache
of what the queues say. Every operation holds `mLock` and is one step; an operation that waits on
a condition variable is not enabled. A wait changes nothing before it ends, so the state in which
a thread waits is the one in which it has called.
-/

namespace FdeEmugl.RenderChannel

open Runs Queue
open BufferQueue
open Option (map_eq_some_iff)

/-- The bits of `RenderChannel::State`. -/
structure State where
  canRead : Bool
  canWrite : Bool
  stopped : Bool
deriving Repr, DecidableEq

namespace State

def empty : State := ⟨false, false, false⟩

def inter (first second : State) : State where
  canRead := first.canRead && second.canRead
  canWrite := first.canWrite && second.canWrite
  stopped := first.stopped && second.stopped

def union (first second : State) : State where
  canRead := first.canRead || second.canRead
  canWrite := first.canWrite || second.canWrite
  stopped := first.stopped || second.stopped

def compl (state : State) : State where
  canRead := !state.canRead
  canWrite := !state.canWrite
  stopped := !state.stopped

end State

structure RenderChannelImpl (Buffer : Type*) where
  mFromGuest : BufferQueue Buffer
  mToGuest : BufferQueue Buffer
  mState : State
  mWantedEvents : State
  /-- Stopping replaces the callback of the guest by one that does nothing. -/
  mEventCallback : Bool
  /-- What the callback of the guest has been called with, latest first. -/
  reported : List State

def kGuestToHostQueueCapacity : ℕ := 1024

def kHostToGuestQueueCapacity : ℕ := 16

variable {Buffer : Type*}

namespace RenderChannelImpl

/-- The state that the queues stand for. -/
def queuesState (c : RenderChannelImpl Buffer) : State where
  canRead := c.mToGuest.canPopLocked
  canWrite := c.mFromGuest.canPushLocked
  stopped := c.mToGuest.isClosedLocked

def updateStateLocked (c : RenderChannelImpl Buffer) : RenderChannelImpl Buffer := { c with mState := c.queuesState }

/-- Stop events are reported even if not asked for. -/
def notifyStateChangeLocked (c : RenderChannelImpl Buffer) : RenderChannelImpl Buffer :=
  let available := c.mState.inter (c.mWantedEvents.union ⟨false, false, true⟩)
  if available = .empty then c
  else
    { c with
      mWantedEvents := c.mWantedEvents.inter c.mState.compl
      reported := if c.mEventCallback then available :: c.reported else c.reported }

/-- A new channel whose guest has set its callback. -/
def new (Buffer : Type*) [Inhabited Buffer] : RenderChannelImpl Buffer :=
  updateStateLocked
    { mFromGuest := .new Buffer kGuestToHostQueueCapacity
      mToGuest := .new Buffer kHostToGuestQueueCapacity
      mState := .empty
      mWantedEvents := .empty
      mEventCallback := true
      reported := [] }

def setWantedEvents (state : State) (c : RenderChannelImpl Buffer) : RenderChannelImpl Buffer :=
  notifyStateChangeLocked { c with mWantedEvents := c.mWantedEvents.union state }

variable [Inhabited Buffer]

def tryWrite (buffer : Buffer) (c : RenderChannelImpl Buffer) :
    BufferQueueResult × RenderChannelImpl Buffer :=
  let (result, mFromGuest) := c.mFromGuest.tryPushLocked buffer
  (result, updateStateLocked { c with mFromGuest := mFromGuest })

def tryRead (c : RenderChannelImpl Buffer) :
    BufferQueueResult × Option Buffer × RenderChannelImpl Buffer :=
  let (result, buffer, mToGuest) := c.mToGuest.tryPopLocked
  (result, buffer, updateStateLocked { c with mToGuest := mToGuest })

def readBefore (timedOut : Bool) (c : RenderChannelImpl Buffer) :
    Option (BufferQueueResult × Option Buffer × RenderChannelImpl Buffer) :=
  (c.mToGuest.popLockedBefore timedOut).map fun (result, buffer, mToGuest) ↦
    (result, buffer, updateStateLocked { c with mToGuest := mToGuest })

def stop (c : RenderChannelImpl Buffer) : RenderChannelImpl Buffer :=
  { c with
    mFromGuest := c.mFromGuest.closeLocked
    mToGuest := c.mToGuest.closeLocked
    mEventCallback := false }

def writeToGuest (buffer : Buffer) (c : RenderChannelImpl Buffer) :
    Option (Bool × RenderChannelImpl Buffer) :=
  (c.mToGuest.pushLocked buffer).map fun (result, mToGuest) ↦
    (decide (result = .ok), notifyStateChangeLocked (updateStateLocked { c with mToGuest := mToGuest }))

def readFromGuest (blocking : Bool) (c : RenderChannelImpl Buffer) :
    Option (BufferQueueResult × Option Buffer × RenderChannelImpl Buffer) :=
  (if blocking then c.mFromGuest.popLocked else some c.mFromGuest.tryPopLocked).map
    fun (result, buffer, mFromGuest) ↦
      (result, buffer, notifyStateChangeLocked (updateStateLocked { c with mFromGuest := mFromGuest }))

def stopFromHost (c : RenderChannelImpl Buffer) : RenderChannelImpl Buffer :=
  { notifyStateChangeLocked
      { c with
        mFromGuest := c.mFromGuest.closeLocked
        mToGuest := c.mToGuest.closeLocked
        mState := c.mState.union ⟨false, false, true⟩ } with
    mEventCallback := false }

def isStopped (c : RenderChannelImpl Buffer) : Bool := c.mState.stopped

def pausePreSnapshot (c : RenderChannelImpl Buffer) : RenderChannelImpl Buffer :=
  { c with
    mFromGuest := c.mFromGuest.setSnapshotModeLocked true
    mToGuest := c.mToGuest.setSnapshotModeLocked true }

def resume (c : RenderChannelImpl Buffer) : RenderChannelImpl Buffer :=
  { c with
    mFromGuest := c.mFromGuest.setSnapshotModeLocked false
    mToGuest := c.mToGuest.setSnapshotModeLocked false }

end RenderChannelImpl

open RenderChannelImpl

inductive Event (Buffer : Type*) where
  | setWantedEvents (state : State)
  | tryWrite (buffer : Buffer)
  | tryRead
  | readBefore (timedOut : Bool)
  | stop
  | writeToGuest (buffer : Buffer)
  | readFromGuest (blocking : Bool)
  | stopFromHost
  | pausePreSnapshot
  | resume
deriving Repr, DecidableEq

def step [Inhabited Buffer] : Event Buffer → RenderChannelImpl Buffer → Option (RenderChannelImpl Buffer)
  | .setWantedEvents state, c => some (c.setWantedEvents state)
  | .tryWrite buffer, c => some (c.tryWrite buffer).2
  | .tryRead, c => some c.tryRead.2.2
  | .readBefore timedOut, c => (c.readBefore timedOut).map fun result ↦ result.2.2
  | .stop, c => some c.stop
  | .writeToGuest buffer, c => (c.writeToGuest buffer).map Prod.snd
  | .readFromGuest blocking, c => (c.readFromGuest blocking).map fun result ↦ result.2.2
  | .stopFromHost, c => some c.stopFromHost
  | .pausePreSnapshot, c => some c.pausePreSnapshot
  | .resume, c => some c.resume

/-- The event stops the channel. -/
def Event.Stops : Event Buffer → Prop
  | .stop | .stopFromHost => True
  | _ => False

/-- A guest stops the channel only if it is stopped already, the host only while nothing can be
written, and a write does not make room for an event that the guest waits for. -/
def KeepsState : Event Buffer → RenderChannelImpl Buffer → Prop
  | .stop, c => c.mToGuest.mClosed = true
  | .stopFromHost, c => c.mFromGuest.canPushLocked = false
  | .tryWrite _, c =>
    c.mFromGuest.mSnapshotMode = true → c.mFromGuest.mClosed = false →
      c.mFromGuest.mCount ≥ c.mFromGuest.mBuffers.length → c.mWantedEvents.canWrite = false
  | _, _ => True

/-! ## The cache -/

/-- The cache is right, and no event that the guest waits for has happened. -/
structure InSync (c : RenderChannelImpl Buffer) : Prop where
  state : c.mState = c.queuesState
  closed : c.mFromGuest.mClosed = c.mToGuest.mClosed
  wanted : c.mToGuest.mClosed = false → c.mWantedEvents.inter c.mState = .empty

section Cache

variable {c : RenderChannelImpl Buffer}

theorem inSync_new (Buffer : Type*) [Inhabited Buffer] : InSync (RenderChannelImpl.new Buffer) where
  state := rfl
  closed := rfl
  wanted _ := rfl

theorem State.inter_eq_empty {first second : State} : first.inter second = .empty ↔
    (second.canRead = true → first.canRead = false) ∧ (second.canWrite = true → first.canWrite = false) ∧
      (second.stopped = true → first.stopped = false) := by
  obtain ⟨read, write, stopped⟩ := first
  obtain ⟨read', write', stopped'⟩ := second
  simp only [State.inter, State.empty, State.mk.injEq]
  revert read write stopped read' write' stopped'
  decide

theorem State.inter_compl_inter (first second : State) : (first.inter second.compl).inter second = .empty := by
  rw [State.inter_eq_empty]
  simp +contextual [State.inter, State.compl]

theorem State.inter_eq_empty_of_union {wanted state other : State}
    (h : state.inter (wanted.union other) = .empty) : wanted.inter state = .empty := by
  simp only [State.inter, State.union, State.empty, State.mk.injEq] at h ⊢
  grind

section

variable (c : RenderChannelImpl Buffer)

theorem mWantedEvents_notify : c.notifyStateChangeLocked.mWantedEvents =
      if c.mState.inter (c.mWantedEvents.union ⟨false, false, true⟩) = .empty then c.mWantedEvents
      else c.mWantedEvents.inter c.mState.compl := by
  unfold notifyStateChangeLocked
  exact apply_ite mWantedEvents _ _ _

/-- A notification leaves the queues and the cache alone. -/
theorem frame_notify : c.notifyStateChangeLocked.mFromGuest = c.mFromGuest ∧
      c.notifyStateChangeLocked.mToGuest = c.mToGuest ∧ c.notifyStateChangeLocked.mState = c.mState := by
  unfold notifyStateChangeLocked
  simp only
  split_ifs <;> exact ⟨rfl, rfl, rfl⟩

/-- After a notification nothing that the guest waits for has happened. -/
theorem wanted_notify : c.notifyStateChangeLocked.mWantedEvents.inter c.mState = .empty := by
  rw [mWantedEvents_notify]
  split_ifs with hnone
  · exact State.inter_eq_empty_of_union hnone
  · exact State.inter_compl_inter c.mWantedEvents c.mState

end

theorem inSync_notify (hstate : c.mState = c.queuesState)
    (hclosed : c.mFromGuest.mClosed = c.mToGuest.mClosed) : InSync c.notifyStateChangeLocked := by
  obtain ⟨hfrom, hto, hcached⟩ := frame_notify c
  refine ⟨?_, ?_, fun _ ↦ ?_⟩
  · calc
      c.notifyStateChangeLocked.mState = c.mState := hcached
      _ = c.queuesState := hstate
      _ = c.notifyStateChangeLocked.queuesState := by
        unfold queuesState
        rw [hfrom, hto]
  · rw [hfrom, hto, hclosed]
  · rw [hcached]
    exact wanted_notify c

/-- An operation that refreshes the cache without a notification must not make an event happen. -/
theorem inSync_update (hclosed : c.mFromGuest.mClosed = c.mToGuest.mClosed)
    (hread : c.mToGuest.mClosed = false → c.mToGuest.canPopLocked = true → c.mWantedEvents.canRead = false)
    (hwrite : c.mToGuest.mClosed = false → c.mFromGuest.canPushLocked = true →
      c.mWantedEvents.canWrite = false) : InSync c.updateStateLocked where
  state := rfl
  closed := hclosed
  wanted hopen := by
    apply State.inter_eq_empty.mpr
    refine ⟨hread hopen, hwrite hopen, ?_⟩
    intro hstopped
    exact absurd hstopped (Bool.eq_false_iff.mp hopen)

section

variable (h : InSync c)
include h

theorem InSync.canRead (hopen : c.mToGuest.mClosed = false) (hpop : c.mToGuest.canPopLocked = true) :
    c.mWantedEvents.canRead = false := by
  have hnone := h.wanted hopen
  rw [h.state] at hnone
  exact (State.inter_eq_empty.mp hnone).1 hpop

theorem InSync.canWrite (hopen : c.mToGuest.mClosed = false) (hpush : c.mFromGuest.canPushLocked = true) :
    c.mWantedEvents.canWrite = false := by
  have hnone := h.wanted hopen
  rw [h.state] at hnone
  exact (State.inter_eq_empty.mp hnone).2.1 hpush

theorem inSync_setWantedEvents (state : State) : InSync (c.setWantedEvents state) := by
  apply inSync_notify
  · exact h.state
  · exact h.closed

theorem inSync_stop (hstopped : c.mToGuest.mClosed = true) : InSync c.stop where
  state := by
    have hpush : c.mFromGuest.canPushLocked = false := by
      simp [canPushLocked, h.closed, hstopped]
    calc
      c.stop.mState = c.queuesState := h.state
      _ = ⟨c.mToGuest.canPopLocked, false, true⟩ := by
        unfold queuesState
        rw [hpush, isClosedLocked, hstopped]
  closed := rfl
  wanted hopen := by cases hopen

theorem inSync_stopFromHost (hpush : c.mFromGuest.canPushLocked = false) : InSync c.stopFromHost := by
  have hclosed : InSync (notifyStateChangeLocked
      { c with
        mFromGuest := c.mFromGuest.closeLocked
        mToGuest := c.mToGuest.closeLocked
        mState := c.mState.union ⟨false, false, true⟩ }) := by
    apply inSync_notify
    · change c.mState.union ⟨false, false, true⟩ = ⟨c.mToGuest.canPopLocked, false, true⟩
      rw [h.state, queuesState, hpush]
      simp [State.union]
    · rfl
  exact ⟨hclosed.state, hclosed.closed, hclosed.wanted⟩

theorem inSync_setSnapshotMode (on : Bool) : InSync { c with
      mFromGuest := c.mFromGuest.setSnapshotModeLocked on
      mToGuest := c.mToGuest.setSnapshotModeLocked on } :=
  ⟨h.state, h.closed, h.wanted⟩

end

end Cache

/-! ## The queues -/

section Queues

variable [Inhabited Buffer] {q next : BufferQueue Buffer}

variable {result : BufferQueueResult}

/-- A push makes room only where it lets a full queue grow. -/
theorem canPush_of_tryPush (buffer : Buffer) (h : (q.tryPushLocked buffer).2.canPushLocked = true) :
    q.canPushLocked = true ∨ q.mSnapshotMode = true ∧ q.mClosed = false ∧ q.mCount ≥ q.mBuffers.length := by
  unfold tryPushLocked at h
  split_ifs at h with hclosed hfull hsnapshot
  · exact .inl h
  · exact .inr ⟨hsnapshot, by simpa using hclosed, hfull⟩
  · exact .inl h
  · refine .inl ?_
    simp only [canPushLocked, Bool.and_eq_true, Bool.not_eq_true', decide_eq_true_eq]
    exact ⟨by simpa using hclosed, by omega⟩

theorem mClosed_tryPush (buffer : Buffer) (q : BufferQueue Buffer) :
    (q.tryPushLocked buffer).2.mClosed = q.mClosed := by
  unfold tryPushLocked
  split_ifs <;> rfl

theorem canPop_of_tryPop (h : q.tryPopLocked.2.2.canPopLocked = true) : q.canPopLocked = true := by
  by_cases hempty : q.mCount = 0
  · rw [tryPopLocked, if_pos hempty] at h
    exact h
  · exact decide_eq_true (Nat.pos_of_ne_zero hempty)

theorem mClosed_tryPop (q : BufferQueue Buffer) : q.tryPopLocked.2.2.mClosed = q.mClosed := by
  unfold tryPopLocked
  split_ifs <;> rfl

/-- A pop that waits either gives up or is a pop that does not wait. -/
theorem popLockedBefore_cases {timedOut : Bool} {buffer : Option Buffer}
    (h : q.popLockedBefore timedOut = some (result, buffer, next)) : next = q ∨ next = q.tryPopLocked.2.2 := by
  unfold popLockedBefore at h
  split_ifs at h with hempty hclosed htimedOut
  · exact .inl (congrArg (fun popped ↦ popped.2.2) (Option.some.inj h)).symm
  · exact .inl (congrArg (fun popped ↦ popped.2.2) (Option.some.inj h)).symm
  · exact .inr (congrArg (fun popped ↦ popped.2.2) (Option.some.inj h)).symm

theorem mClosed_popLocked {buffer : Option Buffer} (h : q.popLocked = some (result, buffer, next)) :
    next.mClosed = q.mClosed := by
  unfold popLocked at h
  split_ifs at h with hempty hclosed
  · exact congrArg (fun popped ↦ popped.2.2.mClosed) (Option.some.inj h).symm
  · rw [← mClosed_tryPop q, Option.some.inj h]

theorem mClosed_pushLocked {buffer : Buffer} (h : q.pushLocked buffer = some (result, next)) :
    next.mClosed = q.mClosed := by
  unfold pushLocked at h
  split_ifs at h with hfull hclosed
  · exact congrArg (fun pushed ↦ pushed.2.mClosed) (Option.some.inj h).symm
  · rw [← mClosed_tryPush buffer q, Option.some.inj h]

end Queues

/-! ## Runs -/

section Steps

variable [Inhabited Buffer] {c next : RenderChannelImpl Buffer}

theorem inSync_tryWrite (h : InSync c) {buffer : Buffer} (hkeeps : KeepsState (.tryWrite buffer) c) :
    InSync (c.tryWrite buffer).2 := by
  apply inSync_update
  · exact (mClosed_tryPush buffer c.mFromGuest).trans h.closed
  · exact h.canRead
  · intro hopen hpush
    obtain hbefore | ⟨hsnapshot, hclosed, hfull⟩ := canPush_of_tryPush buffer hpush
    · exact h.canWrite hopen hbefore
    · exact hkeeps hsnapshot hclosed hfull

theorem inSync_tryRead (h : InSync c) : InSync c.tryRead.2.2 := by
  have hclosed := mClosed_tryPop c.mToGuest
  apply inSync_update
  · exact h.closed.trans hclosed.symm
  · intro hopen hpop
    exact h.canRead (hclosed ▸ hopen) (canPop_of_tryPop hpop)
  · intro hopen hpush
    exact h.canWrite (hclosed ▸ hopen) hpush

theorem inSync_readBefore (h : InSync c) {timedOut : Bool}
    (hstep : step (.readBefore timedOut) c = some next) : InSync next := by
  obtain ⟨result, hread, rfl⟩ := map_eq_some_iff.mp hstep
  obtain ⟨⟨popped, buffer, mToGuest⟩, hpop, rfl⟩ := map_eq_some_iff.mp hread
  obtain rfl | rfl := popLockedBefore_cases hpop
  · exact inSync_update h.closed h.canRead h.canWrite
  · exact inSync_tryRead h

theorem inSync_writeToGuest (h : InSync c) {buffer : Buffer}
    (hstep : step (.writeToGuest buffer) c = some next) : InSync next := by
  obtain ⟨result, hwrite, rfl⟩ := map_eq_some_iff.mp hstep
  obtain ⟨⟨pushed, mToGuest⟩, hpush, rfl⟩ := map_eq_some_iff.mp hwrite
  apply inSync_notify
  · rfl
  · exact h.closed.trans (mClosed_pushLocked hpush).symm

theorem inSync_readFromGuest (h : InSync c) {blocking : Bool}
    (hstep : step (.readFromGuest blocking) c = some next) : InSync next := by
  obtain ⟨result, hread, rfl⟩ := map_eq_some_iff.mp hstep
  obtain ⟨⟨popped, buffer, mFromGuest⟩, hpop, rfl⟩ := map_eq_some_iff.mp hread
  have hclosed : mFromGuest.mClosed = c.mFromGuest.mClosed := by
    cases blocking with
    | false =>
      rw [← mClosed_tryPop c.mFromGuest, Option.some.inj hpop]
    | true => exact mClosed_popLocked hpop
  apply inSync_notify
  · rfl
  · exact hclosed.trans h.closed

theorem inSync_step (event : Event Buffer) (c next : RenderChannelImpl Buffer) (h : InSync c)
    (hkeeps : KeepsState event c) (hstep : step event c = some next) : InSync next := by
  cases event with
  | setWantedEvents state => exact Option.some.inj hstep ▸ inSync_setWantedEvents h state
  | tryWrite buffer => exact Option.some.inj hstep ▸ inSync_tryWrite h hkeeps
  | tryRead => exact Option.some.inj hstep ▸ inSync_tryRead h
  | readBefore timedOut => exact inSync_readBefore h hstep
  | stop => exact Option.some.inj hstep ▸ inSync_stop h hkeeps
  | writeToGuest buffer => exact inSync_writeToGuest h hstep
  | readFromGuest blocking => exact inSync_readFromGuest h hstep
  | stopFromHost => exact Option.some.inj hstep ▸ inSync_stopFromHost h hkeeps
  | pausePreSnapshot => exact Option.some.inj hstep ▸ inSync_setSnapshotMode h true
  | resume => exact Option.some.inj hstep ▸ inSync_setSnapshotMode h false

/-- Only the two stops close the queues, and nothing opens them again. -/
theorem mClosed_step {event : Event Buffer} (hstep : step event c = some next) :
    next.mToGuest.mClosed = true ↔ c.mToGuest.mClosed = true ∨ event.Stops := by
  cases event with
  | setWantedEvents state =>
    rw [← Option.some.inj hstep, RenderChannelImpl.setWantedEvents, (frame_notify _).2.1]
    simp [Event.Stops]
  | tryWrite buffer =>
    simp [← Option.some.inj hstep, Event.Stops, RenderChannelImpl.tryWrite, updateStateLocked]
  | tryRead =>
    rw [← Option.some.inj hstep]
    simp [Event.Stops, RenderChannelImpl.tryRead, updateStateLocked, mClosed_tryPop]
  | readBefore timedOut =>
    obtain ⟨result, hread, rfl⟩ := map_eq_some_iff.mp hstep
    obtain ⟨⟨popped, buffer, mToGuest⟩, hpop, rfl⟩ := map_eq_some_iff.mp hread
    obtain rfl | rfl := popLockedBefore_cases hpop
    · simp [Event.Stops, updateStateLocked]
    · simp [Event.Stops, updateStateLocked, mClosed_tryPop]
  | stop => simp [← Option.some.inj hstep, Event.Stops, RenderChannelImpl.stop, closeLocked]
  | writeToGuest buffer =>
    obtain ⟨result, hwrite, rfl⟩ := map_eq_some_iff.mp hstep
    obtain ⟨⟨pushed, mToGuest⟩, hpush, rfl⟩ := map_eq_some_iff.mp hwrite
    simp [Event.Stops, (frame_notify _).2.1, updateStateLocked, mClosed_pushLocked hpush]
  | readFromGuest blocking =>
    obtain ⟨result, hread, rfl⟩ := map_eq_some_iff.mp hstep
    obtain ⟨⟨popped, buffer, mFromGuest⟩, hpop, rfl⟩ := map_eq_some_iff.mp hread
    simp [Event.Stops, (frame_notify _).2.1, updateStateLocked]
  | stopFromHost =>
    simp [← Option.some.inj hstep, Event.Stops, RenderChannelImpl.stopFromHost, (frame_notify _).2.1,
      closeLocked]
  | pausePreSnapshot =>
    simp [← Option.some.inj hstep, Event.Stops, RenderChannelImpl.pausePreSnapshot, setSnapshotModeLocked]
  | resume =>
    simp [← Option.some.inj hstep, Event.Stops, RenderChannelImpl.resume, setSnapshotModeLocked]

theorem mClosed_run {events : List (Event Buffer)} (hrun : run step c events = some next) :
    next.mToGuest.mClosed = true ↔ c.mToGuest.mClosed = true ∨ ∃ event ∈ events, event.Stops := by
  induction events generalizing c with
  | nil => simp [← Option.some.inj hrun]
  | cons event events ih =>
    obtain ⟨middle, hmiddle, hrest⟩ := Option.bind_eq_some_iff.mp hrun
    rw [ih hrest, mClosed_step hmiddle, List.exists_mem_cons_iff, or_assoc]

/-- In a run in which the channel keeps its state, `mState` is always what the queues say. A channel
that has been stopped is reported as stopped, and of one that has not no event that the guest waits
for has happened. -/
theorem state_inSync_of_keepsState (events : List (Event Buffer)) (c : RenderChannelImpl Buffer)
    (hkeeps : Guarded step KeepsState (RenderChannelImpl.new Buffer) events)
    (hrun : run step (RenderChannelImpl.new Buffer) events = some c) :
    c.mState = c.updateStateLocked.mState ∧
      ((∃ event ∈ events, event.Stops) → c.isStopped = true) ∧
      ((¬ ∃ event ∈ events, event.Stops) → c.mWantedEvents.inter c.mState = .empty) := by
  have h := invariant_of_guarded InSync inSync_step (inSync_new Buffer) hkeeps hrun
  have hclosed := mClosed_run hrun
  refine ⟨h.state, ?_, ?_⟩
  · intro hstops
    rw [RenderChannelImpl.isStopped, h.state]
    exact hclosed.mpr (.inr hstops)
  · intro hruns
    apply h.wanted
    by_contra hstopped
    obtain hnew | hstops := hclosed.mp (Bool.eq_true_of_not_eq_false hstopped)
    · cases hnew
    · exact hruns hstops

end Steps

instance decidableKeepsState : ∀ (event : Event Bool) (c : RenderChannelImpl Bool),
    Decidable (KeepsState event c)
  | .stop, c => inferInstanceAs (Decidable (c.mToGuest.mClosed = true))
  | .stopFromHost, c => inferInstanceAs (Decidable (c.mFromGuest.canPushLocked = false))
  | .tryWrite _, c =>
    inferInstanceAs (Decidable (c.mFromGuest.mSnapshotMode = true → c.mFromGuest.mClosed = false →
      c.mFromGuest.mCount ≥ c.mFromGuest.mBuffers.length → c.mWantedEvents.canWrite = false))
  | .setWantedEvents _, _ | .tryRead, _ | .readBefore _, _ | .writeToGuest _, _ | .readFromGuest _, _
  | .pausePreSnapshot, _ | .resume, _ => isTrue trivial

/-- The guest waits for something to read, and reads it while a snapshot is taken. -/
def readEvents : List (Event Bool) :=
  [.setWantedEvents ⟨true, false, false⟩, .tryWrite true, .readFromGuest true, .writeToGuest false,
    .pausePreSnapshot, .tryRead, .tryWrite false, .resume, .readBefore true]

theorem state_inSync_read :
    ∃ c, Guarded step KeepsState (RenderChannelImpl.new Bool) readEvents ∧
      run step (RenderChannelImpl.new Bool) readEvents = some c ∧
      c.reported = [⟨true, false, false⟩] ∧ c.mState = c.updateStateLocked.mState ∧
      c.mWantedEvents.inter c.mState = .empty := by
  have hkeeps : Guarded step KeepsState (RenderChannelImpl.new Bool) readEvents := by decide +kernel
  have hreports : (run step (RenderChannelImpl.new Bool) readEvents).map RenderChannelImpl.reported =
      some [⟨true, false, false⟩] := by decide +kernel
  obtain ⟨c, hrun, hreported⟩ := map_eq_some_iff.mp hreports
  obtain ⟨hstate, _, hwanted⟩ := state_inSync_of_keepsState readEvents c hkeeps hrun
  refine ⟨c, hkeeps, hrun, hreported, hstate, hwanted ?_⟩
  simp [readEvents, Event.Stops]

/-- The guest stops a new channel, and nobody is told. -/
theorem stopped_not_reported :
    ∃ c, run step (RenderChannelImpl.new Bool) [.stop] = some c ∧
      c.isStopped = false ∧ c.updateStateLocked.isStopped = true ∧
      ¬ (c.mState = c.updateStateLocked.mState ∧
        ((∃ event ∈ ([.stop] : List (Event Bool)), event.Stops) → c.isStopped = true)) := by
  refine ⟨_, rfl, by decide +kernel, by decide +kernel, ?_⟩
  rintro ⟨_, hstopped⟩
  have hreported := hstopped ⟨.stop, List.mem_singleton.mpr rfl, trivial⟩
  cases hreported

end FdeEmugl.RenderChannel

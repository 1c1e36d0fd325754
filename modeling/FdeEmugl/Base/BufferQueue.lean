import FdeEmugl.Library.Cyclic
import FdeEmugl.Library.Runs

/-!
# BufferQueue and the bounded FIFO it implements

`BufferQueue<T>` stores its elements in a vector, `mCount` of them from `mPos`
on, cyclically. In snapshot mode a push into a full queue relocates the elements
into a vector of twice the size. `Fifo` is what callers see of this: a list of
elements with a capacity, and the two mode flags that decide the results.

The vector's size and the two `int` fields are natural numbers. A reserved vector
has exactly the capacity asked for. The cell a pop moves from keeps its value:
no operation reads it before writing it.
-/

namespace FdeEmugl.Queue

open Cyclic

inductive BufferQueueResult where
  | ok
  | tryAgain
  | error
  | timeout
deriving Repr, DecidableEq

structure BufferQueue (T : Type*) where
  mPos : ℕ
  mCount : ℕ
  mClosed : Bool
  mSnapshotMode : Bool
  mBuffers : List T
deriving Repr, DecidableEq

variable {T : Type*} [Inhabited T]

/-- The constructor: a vector of `capacity` default elements. -/
def BufferQueue.new (T : Type*) [Inhabited T] (capacity : ℕ) : BufferQueue T where
  mPos := 0
  mCount := 0
  mClosed := false
  mSnapshotMode := false
  mBuffers := List.replicate capacity default

namespace BufferQueue

def canPushLocked (q : BufferQueue T) : Bool := !q.mClosed && decide (q.mCount < q.mBuffers.length)

def canPopLocked (q : BufferQueue T) : Bool := decide (q.mCount > 0)

def isClosedLocked (q : BufferQueue T) : Bool := q.mClosed

def setSnapshotModeLocked (on : Bool) (q : BufferQueue T) : BufferQueue T := { q with mSnapshotMode := on }

/-- Two segments are moved to the front of the new vector: from `mPos` to the end of the
elements or of the vector, then from its start to where the elements end. -/
def grow (q : BufferQueue T) : BufferQueue T :=
  let size := q.mBuffers.length
  let newBuffers :=
    (q.mBuffers.take (min (q.mPos + q.mCount) size)).drop q.mPos ++ q.mBuffers.take ((q.mPos + q.mCount) % size)
  { q with
    mBuffers := newBuffers ++ List.replicate (size * 2 - newBuffers.length) default
    mPos := 0 }

/-- The index of the slot that wraps at most once. -/
def wrapOnce (q : BufferQueue T) (pos : ℕ) : ℕ :=
  if pos ≥ q.mBuffers.length then pos - q.mBuffers.length else pos

/-- The part of `tryPushLocked` after the checks. -/
def store (buffer : T) (q : BufferQueue T) : BufferQueue T :=
  { q with
    mBuffers := q.mBuffers.set (q.wrapOnce (q.mPos + q.mCount)) buffer
    mCount := q.mCount + 1 }

def tryPushLocked (buffer : T) (q : BufferQueue T) : BufferQueueResult × BufferQueue T :=
  if q.mClosed then
    (.error, q)
  else if q.mCount ≥ q.mBuffers.length then
    if q.mSnapshotMode then
      (.ok, q.grow.store buffer)
    else
      (.tryAgain, q)
  else
    (.ok, q.store buffer)

/-- The result, what `*buffer` is set to if anything, and the queue. -/
def tryPopLocked (q : BufferQueue T) : BufferQueueResult × Option T × BufferQueue T :=
  if q.mCount = 0 then
    (if q.mClosed || q.mSnapshotMode then .error else .tryAgain, none, q)
  else
    (.ok, some (q.mBuffers.getD q.mPos default),
      { q with
        mPos := q.wrapOnce (q.mPos + 1)
        mCount := q.mCount - 1 })

/-- `none` while the caller waits on `mCanPush`. -/
def pushLocked (buffer : T) (q : BufferQueue T) : Option (BufferQueueResult × BufferQueue T) :=
  if q.mCount = q.mBuffers.length ∧ q.mSnapshotMode = false then
    if q.mClosed then some (.error, q) else none
  else some (q.tryPushLocked buffer)

/-- `none` while the caller waits on `mCanPop`. -/
def popLocked (q : BufferQueue T) : Option (BufferQueueResult × Option T × BufferQueue T) :=
  if q.mCount = 0 ∧ q.mSnapshotMode = false then
    if q.mClosed then some (.error, none, q) else none
  else some q.tryPopLocked

/-- As `popLocked`, but a wait may also end because the time has passed. -/
def popLockedBefore (timedOut : Bool) (q : BufferQueue T) :
    Option (BufferQueueResult × Option T × BufferQueue T) :=
  if q.mCount = 0 ∧ q.mSnapshotMode = false then
    if q.mClosed then some (.error, none, q)
    else if timedOut then some (.timeout, none, q)
    else none
  else some q.tryPopLocked

def closeLocked (q : BufferQueue T) : BufferQueue T := { q with mClosed := true }

/-! ## The abstract content -/

def cells (q : BufferQueue T) : ℕ → T := fun index ↦ q.mBuffers.getD index default

/-- The `mCount` elements from `mPos` on, oldest first. -/
def content (q : BufferQueue T) : List T := window q.mBuffers.length q.cells q.mPos q.mCount

structure WellFormed (q : BufferQueue T) : Prop where
  pos_lt : q.mPos < q.mBuffers.length
  count_le : q.mCount ≤ q.mBuffers.length

theorem WellFormed.new (capacity : ℕ) (h : 0 < capacity) : (BufferQueue.new T capacity).WellFormed where
  pos_lt := by simpa [BufferQueue.new] using h
  count_le := by simp [BufferQueue.new]

theorem length_content (q : BufferQueue T) : q.content.length = q.mCount := by
  simp [content]

omit [Inhabited T] in
theorem WellFormed.store {q : BufferQueue T} (h : q.WellFormed)
    (hroom : q.mCount < q.mBuffers.length) (buffer : T) : (q.store buffer).WellFormed where
  pos_lt := by simpa [BufferQueue.store] using h.pos_lt
  count_le := by
    simp only [BufferQueue.store, List.length_set]
    omega

theorem mBuffers_grow (q : BufferQueue T) (h : q.WellFormed) (hfull : q.mCount = q.mBuffers.length) :
    q.grow.mBuffers = q.content ++ List.replicate q.mBuffers.length default := by
  have hpos := h.pos_lt
  have hmoved : (q.mBuffers.take (min (q.mPos + q.mCount) q.mBuffers.length)).drop q.mPos ++
      q.mBuffers.take ((q.mPos + q.mCount) % q.mBuffers.length) = q.content := by
    rw [content, hfull, Nat.min_eq_right (by omega), List.take_length, Nat.add_mod_right, Nat.mod_eq_of_lt hpos]
    exact (window_getD_full q.mBuffers default hpos).symm
  simp only [grow]
  rw [hmoved, length_content, hfull, Nat.mul_two, Nat.add_sub_cancel]

section

variable {q : BufferQueue T} (h : q.WellFormed)
include h

theorem WellFormed.grow (hfull : q.mCount = q.mBuffers.length) :
    q.grow.WellFormed ∧ q.grow.mCount < q.grow.mBuffers.length := by
  have hpos := h.pos_lt
  have hlength : q.grow.mBuffers.length = q.mBuffers.length + q.mBuffers.length := by
    rw [q.mBuffers_grow h hfull, List.length_append, length_content, hfull, List.length_replicate]
  have hcount : q.grow.mCount = q.mBuffers.length := hfull
  refine ⟨⟨?_, by omega⟩, by omega⟩
  change 0 < q.grow.mBuffers.length
  omega

end

end BufferQueue

open BufferQueue

/-! ## The bounded FIFO -/

/-- The calls a client makes with the lock held. -/
inductive Call (T : Type*) where
  | tryPush (buffer : T)
  | tryPop
  | close
  | setSnapshotMode (on : Bool)

/-- What a call gives back: its result, if it has one, and the element a pop delivers. -/
abbrev Answer (T : Type*) := Option BufferQueueResult × Option T

/-- The abstract queue. Its capacity doubles when a push in snapshot mode finds it full. -/
structure Fifo (T : Type*) where
  content : List T
  capacity : ℕ
  closed : Bool
  snapshotMode : Bool

def Fifo.call : Call T → Fifo T → Answer T × Fifo T
  | .tryPush buffer, f =>
    if f.closed then ((some .error, none), f)
    else if f.content.length < f.capacity then
      ((some .ok, none), { f with content := f.content ++ [buffer] })
    else if f.snapshotMode then
      ((some .ok, none), { f with content := f.content ++ [buffer], capacity := 2 * f.capacity })
    else ((some .tryAgain, none), f)
  | .tryPop, f =>
    match f.content with
    | [] => ((some (if f.closed || f.snapshotMode then .error else .tryAgain), none), f)
    | oldest :: rest => ((some .ok, some oldest), { f with content := rest })
  | .close, f => ((none, none), { f with closed := true })
  | .setSnapshotMode on, f => ((none, none), { f with snapshotMode := on })

def BufferQueue.call : Call T → BufferQueue T → Answer T × BufferQueue T
  | .tryPush buffer, q => ((some (q.tryPushLocked buffer).1, none), (q.tryPushLocked buffer).2)
  | .tryPop, q => ((some q.tryPopLocked.1, q.tryPopLocked.2.1), q.tryPopLocked.2.2)
  | .close, q => ((none, none), q.closeLocked)
  | .setSnapshotMode on, q => ((none, none), q.setSnapshotModeLocked on)

/-- A sequence of calls on any kind of queue, with all the answers. -/
def calls {Queue : Type*} (call : Call T → Queue → Answer T × Queue) :
    List (Call T) → Queue → List (Answer T) × Queue
  | [], q => ([], q)
  | first :: rest, q =>
    let (answer, next) := call first q
    let (answers, last) := calls call rest next
    (answer :: answers, last)

section

variable {q : BufferQueue T} (h : q.WellFormed)
include h

end

end FdeEmugl.Queue

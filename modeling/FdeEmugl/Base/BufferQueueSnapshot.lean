import FdeEmugl.Base.BufferQueue
import FdeEmugl.Base.Stream

/-!
# Saving and loading a BufferQueue

The queues of a render channel hold vectors of bytes. `onSaveLocked` writes the
closed flag and, for an open queue only, the elements from the oldest on;
`onLoadLocked` lays them out again from index 0. The two queues are compared by
the answers of `tryPopLocked`, since `popLocked` answers the same or waits.

`mCount` is an `int`: a saved count that does not fit makes the load return
nothing here. The snapshot mode is not part of what is saved.
-/

namespace FdeEmugl.Queue

open Cyclic FdeEmugl.Stream
open BufferQueue

/-- The elements of the queues of `RenderChannelImpl`. -/
abbrev Bytes := List UInt8

namespace BufferQueue

end BufferQueue

/-! ## What pops can observe -/

section Pops

variable {T : Type*} [Inhabited T]

variable {q : BufferQueue T}

end Pops

/-! ## The round trip -/

/-- Nothing of the queue is lost by saving it: a closed queue is empty, and in an open one the
count and the sizes of the elements fit an `int`. -/
def BufferQueue.Savable (q : BufferQueue Bytes) : Prop :=
  if q.mClosed then q.mCount = 0
  else q.mCount < 2 ^ 31 ∧ ∀ buffer ∈ q.content, buffer.length < 2 ^ 31

variable {q : BufferQueue Bytes}

section

variable (fresh : BufferQueue Bytes)

end

end FdeEmugl.Queue

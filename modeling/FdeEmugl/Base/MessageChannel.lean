import FdeEmugl.Library.Cyclic

/-!
# MessageChannel

A channel of `mCapacity` slots between threads. Every call holds `mLock` from its
`before` part to its `after` part, so a call is one step; a call that waits on a
condition variable is not enabled, which is shown by `none`. The two wake-ups are
not part of this module: a waiting thread may be taken to try again at any time.
-/

namespace FdeEmugl.Channel

open Cyclic

structure MessageChannel (T : Type*) where
  mPos : ℕ
  mCapacity : ℕ
  mCount : ℕ
  mStopped : Bool
  mItems : List T

variable {T : Type*} [Inhabited T]

/-- An empty channel. -/
def MessageChannel.new (T : Type*) [Inhabited T] (capacity : ℕ) : MessageChannel T where
  mPos := 0
  mCapacity := capacity
  mCount := 0
  mStopped := false
  mItems := List.replicate capacity default

namespace MessageChannel

/-- The slot after the pending messages. -/
def writeSlot (c : MessageChannel T) : ℕ :=
  if c.mPos + c.mCount ≥ c.mCapacity then c.mPos + c.mCount - c.mCapacity else c.mPos + c.mCount

def beforeWrite (c : MessageChannel T) : Option ℕ :=
  if c.mCount ≥ c.mCapacity ∧ c.mStopped = false then none else some c.writeSlot

def beforeTryWrite (c : MessageChannel T) : Option ℕ :=
  if c.mCount ≥ c.mCapacity ∨ c.mStopped then none else some c.writeSlot

def afterWrite (success : Bool) (c : MessageChannel T) : MessageChannel T :=
  if success then { c with mCount := c.mCount + 1 } else c

def beforeRead (c : MessageChannel T) : Option ℕ :=
  if c.mCount = 0 ∧ c.mStopped = false then none else some c.mPos

def beforeTryRead (c : MessageChannel T) : Option ℕ :=
  if c.mCount = 0 ∨ c.mStopped then none else some c.mPos

def afterRead (success : Bool) (c : MessageChannel T) : MessageChannel T :=
  if success then
    { c with
      mPos := if c.mPos + 1 = c.mCapacity then 0 else c.mPos + 1
      mCount := c.mCount - 1 }
  else c

def stop (c : MessageChannel T) : MessageChannel T := { c with mStopped := true, mCount := 0 }

/-- `none` while the sender waits for a free slot. -/
def send (msg : T) (c : MessageChannel T) : Option (Bool × MessageChannel T) := c.beforeWrite.map fun pos ↦
    let res := !c.mStopped
    (res, afterWrite res (if res then { c with mItems := c.mItems.set pos msg } else c))

def trySend (msg : T) (c : MessageChannel T) : Bool × MessageChannel T :=
  match c.beforeTryWrite with
  | some pos => (true, afterWrite true { c with mItems := c.mItems.set pos msg })
  | none => (false, afterWrite false c)

/-- `none` while the receiver waits for a message. -/
def receive (c : MessageChannel T) : Option (Option T × MessageChannel T) := c.beforeRead.map fun pos ↦
    let res := !c.mStopped
    (if res then some (c.mItems.getD pos default) else none, afterRead res c)

def tryReceive (c : MessageChannel T) : Option T × MessageChannel T :=
  match c.beforeTryRead with
  | some pos => (some (c.mItems.getD pos default), afterRead true c)
  | none => (none, afterRead false c)

/-! ## The pending messages -/

/-- The pending messages, oldest first. -/
def content (c : MessageChannel T) : List T :=
  window c.mCapacity (fun index ↦ c.mItems.getD index default) c.mPos c.mCount

/-- The positions are in range and `stop` has not been called. -/
structure Running (c : MessageChannel T) : Prop where
  pos_lt : c.mPos < c.mCapacity
  count_le : c.mCount ≤ c.mCapacity
  length_items : c.mItems.length = c.mCapacity
  not_stopped : c.mStopped = false

theorem Running.new {capacity : ℕ} (h : 0 < capacity) : (MessageChannel.new T capacity).Running where
  pos_lt := h
  count_le := Nat.zero_le _
  length_items := List.length_replicate
  not_stopped := rfl

theorem length_content (c : MessageChannel T) : c.content.length = c.mCount := by
  simp [content]

@[simp] theorem content_new (capacity : ℕ) : (MessageChannel.new T capacity).content = [] := by
  simp [content, MessageChannel.new]

omit [Inhabited T] in
theorem writeSlot_eq_mod {c : MessageChannel T} (h : c.Running) :
    c.writeSlot = (c.mPos + c.mCount) % c.mCapacity := by
  have hpos := h.pos_lt
  have hcount := h.count_le
  exact wrap_eq_mod (by omega)

section

variable {c : MessageChannel T} (h : c.Running)
include h

/-- A message that is sent goes behind the pending ones. -/
theorem content_write (hroom : c.mCount < c.mCapacity) (msg : T) :
    (afterWrite true { c with mItems := c.mItems.set c.writeSlot msg }).content = c.content ++ [msg] := by
  have hslot : (c.mPos + c.mCount) % c.mCapacity < c.mItems.length := by
    rw [h.length_items]
    exact Nat.mod_lt _ (by omega)
  simp only [afterWrite, content, if_true, writeSlot_eq_mod h, getD_set_eq_update c.mItems default msg hslot]
  rw [window_succ, window_update_next _ _ _ _ _ hroom, Function.update_self]

/-- A send that happens appends its message; it happens when there is room. -/
theorem send_eq (msg : T) :
    (c.send msg = none ∧ c.content.length = c.mCapacity) ∨ ∃ next, c.send msg = some (true, next) ∧ next.Running ∧
        next.content = c.content ++ [msg] ∧ c.content.length < c.mCapacity := by
  have hpos := h.pos_lt
  have hcount := h.count_le
  rw [length_content]
  by_cases hroom : c.mCount < c.mCapacity
  · right
    refine ⟨_, ?_, ?_, content_write h hroom msg, hroom⟩
    · simp [send, beforeWrite, h.not_stopped, hroom]
    · exact ⟨hpos, hroom, by simp [afterWrite, h.length_items], h.not_stopped⟩
  · left
    refine ⟨?_, by omega⟩
    simp [send, beforeWrite, h.not_stopped, Nat.le_of_not_lt hroom]

theorem trySend_eq (msg : T) : (c.trySend msg = (false, c) ∧ c.content.length = c.mCapacity) ∨
      ∃ next, c.trySend msg = (true, next) ∧ next.Running ∧
        next.content = c.content ++ [msg] ∧ c.content.length < c.mCapacity := by
  have hpos := h.pos_lt
  have hcount := h.count_le
  rw [length_content]
  by_cases hroom : c.mCount < c.mCapacity
  · right
    refine ⟨_, ?_, ?_, content_write h hroom msg, hroom⟩
    · simp [trySend, beforeTryWrite, h.not_stopped, Nat.not_le.mpr hroom]
    · exact ⟨hpos, hroom, by simp [afterWrite, h.length_items], h.not_stopped⟩
  · left
    refine ⟨?_, by omega⟩
    simp [trySend, beforeTryWrite, Nat.le_of_not_lt hroom, afterWrite]

end

omit [Inhabited T] in
theorem Running.afterRead {c : MessageChannel T} (h : c.Running) : (c.afterRead true).Running where
  pos_lt := by
    have hpos := h.pos_lt
    simp only [MessageChannel.afterRead, if_true]
    split_ifs <;> omega
  count_le := by
    have hcount := h.count_le
    simp only [MessageChannel.afterRead, if_true]
    omega
  length_items := h.length_items
  not_stopped := h.not_stopped

section

variable {c : MessageChannel T} (h : c.Running)
include h

theorem content_afterRead (hcount : c.mCount ≠ 0) :
    c.content = c.mItems.getD c.mPos default :: (c.afterRead true).content := by
  have hpos := h.pos_lt
  obtain ⟨count, hsucc⟩ := Nat.exists_eq_succ_of_ne_zero hcount
  have hnext : (if c.mPos + 1 = c.mCapacity then 0 else c.mPos + 1) % c.mCapacity = (c.mPos + 1) % c.mCapacity := by
    split_ifs with hend
    · rw [hend, Nat.mod_self, Nat.zero_mod]
    · rfl
  simp only [content, afterRead, hsucc, Nat.succ_eq_add_one, Nat.add_sub_cancel, if_true]
  rw [window_succ_eq_cons, Nat.mod_eq_of_lt hpos, window_of_modEq _ _ _ hnext]

/-- A receive that happens takes the oldest message; it happens when there is one. -/
theorem receive_eq : (c.receive = none ∧ c.content = []) ∨
      ∃ oldest next, c.receive = some (some oldest, next) ∧ next.Running ∧ c.content = oldest :: next.content := by
  by_cases hcount : c.mCount = 0
  · left
    refine ⟨?_, ?_⟩
    · simp [receive, beforeRead, h.not_stopped, hcount]
    · rw [content, hcount, window_zero]
  · right
    refine ⟨_, _, ?_, h.afterRead, content_afterRead h hcount⟩
    simp [receive, beforeRead, h.not_stopped, hcount]

theorem tryReceive_eq : (c.tryReceive = (none, c) ∧ c.content = []) ∨
      ∃ oldest next, c.tryReceive = (some oldest, next) ∧ next.Running ∧ c.content = oldest :: next.content := by
  by_cases hcount : c.mCount = 0
  · left
    refine ⟨?_, ?_⟩
    · simp [tryReceive, beforeTryRead, hcount, afterRead]
    · rw [content, hcount, window_zero]
  · right
    refine ⟨_, _, ?_, h.afterRead, content_afterRead h hcount⟩
    simp [tryReceive, beforeTryRead, h.not_stopped, hcount]

end

/-! ## After `stop` -/

section

variable {c : MessageChannel T} (h : c.mStopped = true)
include h

theorem send_stopped (msg : T) : c.send msg = some (false, c) := by
  simp [send, beforeWrite, afterWrite, h]

theorem trySend_stopped (msg : T) : c.trySend msg = (false, c) := by
  simp [trySend, beforeTryWrite, afterWrite, h]

theorem receive_stopped : c.receive = some (none, c) := by
  simp [receive, beforeRead, afterRead, h]

theorem tryReceive_stopped : c.tryReceive = (none, c) := by
  simp [tryReceive, beforeTryRead, afterRead, h]

end

theorem mCapacity_send {c next : MessageChannel T} {msg : T} {res : Bool}
    (h : c.send msg = some (res, next)) : next.mCapacity = c.mCapacity := by
  obtain ⟨pos, _, hpair⟩ := Option.map_eq_some_iff.mp h
  cases hpair
  cases hstopped : c.mStopped with
  | false => rfl
  | true => rfl

theorem mCapacity_trySend (c : MessageChannel T) (msg : T) : (c.trySend msg).2.mCapacity = c.mCapacity := by
  unfold trySend
  split
  · rfl
  · rfl

theorem mCapacity_receive {c next : MessageChannel T} {res : Option T}
    (h : c.receive = some (res, next)) : next.mCapacity = c.mCapacity := by
  obtain ⟨pos, _, hpair⟩ := Option.map_eq_some_iff.mp h
  cases hpair
  cases hstopped : c.mStopped with
  | false => rfl
  | true => rfl

theorem mCapacity_tryReceive (c : MessageChannel T) : c.tryReceive.2.mCapacity = c.mCapacity := by
  unfold tryReceive
  split
  · rfl
  · rfl

end MessageChannel

end FdeEmugl.Channel

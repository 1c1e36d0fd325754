import FdeEmugl.Library.Runs
import Mathlib.Data.Fintype.Option

/-!
# FenceSync

Fences are created, waited for and destroyed by the render threads, waited for by the sync thread,
and given up by the timeline that the sync thread sweeps. A thread that looks a fence up by
its handle gets the address without a reference; `incRef` is a later step of its own, and so is each
of the two looks `decRef` takes at `mCount`. Addresses that were freed are used again.

A pointer carries the number of the fence it was obtained for, so that reaching a
deleted fence shows, also where a new one lives at the same address. `none` is the sync thread.
-/

namespace FdeEmugl.Fences

open Runs

structure FenceSync where
  /-- How many fences were created before this one. -/
  number : ℕ
  mCount : ℤ
  mDestroyWhenSignaled : Bool
deriving Repr, DecidableEq

/-- A `FenceSync*`, and the fence it was obtained for. -/
@[ext] structure Pointer where
  address : ℕ
  number : ℕ
deriving Repr, DecidableEq

/-- Where a thread is in `decRef`. -/
inductive DecRef where
  /-- `mCount == 1` -/
  | test
  /-- `--mCount == 0` -/
  | decrement
  /-- `destroy()`, and the destructor takes the address out of the registry. -/
  | destroy
  | free
deriving Repr, DecidableEq

/-- A sweep under way: the time it compares with, and the keys it has not looked at. -/
structure Sweep where
  time : Int32
  todo : List ℕ
deriving Repr, DecidableEq

/-- The caller of `decRef`. -/
inductive Caller where
  | wait
  | rcDestroySyncKHR
  | sweepFirst (sweep : Sweep)
  | sweepSecond (sweep : Sweep)
deriving Repr, DecidableEq

/-- Where a thread is. -/
inductive Place where
  | idle
  /-- In the constructor, after `addToRegistry`. -/
  | constructing (fence : Pointer) (hasNativeFence : Bool)
  /-- `addFence` before it loads `mTime`. -/
  | loading (fence : Pointer)
  /-- `addFence` before it takes the lock of `mFences`. -/
  | adding (fence : Pointer) (fenceTime : Int32)
  /-- `getFromHandle` has returned, `wait` has not begun. -/
  | found (fence : Pointer)
  | waiting (fence : Pointer)
  | dropping (fence : Pointer) (decRef : DecRef) (caller : Caller)
  /-- The sync thread before `incrementTimelineAndDeleteOldFences`. -/
  | incrementing
  | sweeping (sweep : Sweep)
  /-- Before `actual->shouldDestroyWhenSignaled()`. -/
  | reading (fence : Pointer) (sweep : Sweep)
deriving Repr, DecidableEq

namespace Place

/-- The fence that the thread is going to use. -/
def pointer : Place → Option Pointer
  | constructing fence _ | loading fence | adding fence _ | found fence | waiting fence => some fence
  | dropping fence _ _ | reading fence _ => some fence
  | idle | incrementing | sweeping _ => none

/-- The fence that the thread is deleting. -/
def deleting : Place → Option Pointer
  | dropping fence .destroy _ | dropping fence .free _ => some fence
  | _ => none

/-- The address that the thread is about to take out of the registry. -/
def unregistering : Place → Option ℕ
  | dropping fence .destroy _ => some fence.address
  | _ => none

/-- The fence a reference to which the thread is dropping. -/
def releasing : Place → Option Pointer
  | dropping fence .test _ | dropping fence .decrement _ => some fence
  | _ => none

/-- The fence that the thread uses without a reference to it. -/
def uncounted : Place → Option Pointer
  | found fence | reading fence _ => some fence
  | _ => none

/-- The fence that the thread is constructing. -/
def building : Place → Option Pointer
  | constructing fence _ | loading fence | adding fence _ => some fence
  | _ => none

/-- The fence that the sweep has to read the flag of, if its first `decRef` does not delete it. -/
def swept : Place → Option Pointer
  | dropping fence .test (.sweepFirst _) | dropping fence .decrement (.sweepFirst _) => some fence
  | reading fence _ => some fence
  | _ => none

/-- How many references to a fence the thread holds. -/
def references (number : ℕ) : Place → ℤ
  | constructing fence _ | waiting fence => if fence.number = number then 1 else 0
  | dropping fence .test _ | dropping fence .decrement _ => if fence.number = number then 1 else 0
  | loading fence | adding fence _ => if fence.number = number then 2 else 0
  | _ => 0

/-- Where `decRef` returns to. -/
def afterDecRef (fence : Pointer) (deleted onSync : Bool) : Caller → Place
  | .wait => if onSync then incrementing else idle
  | .rcDestroySyncKHR => idle
  | .sweepFirst sweep => if deleted then sweeping sweep else reading fence sweep
  | .sweepSecond sweep => sweeping sweep

end Place

structure State (Thread : Type*) where
  heap : ℕ → Option FenceSync
  /-- The handles in `mPtrs`, all `Live`. -/
  registry : ℕ → Bool
  mTime : Int32
  mFences : List (ℕ × Int32)
  /-- The queue of the sync thread. -/
  mInput : List ℕ
  threads : Option Thread → Place
  /-- The fences whose first reference was neither destroyed nor given up by the sweep, and their
  handles. -/
  guest : ℕ → Option ℕ
  /-- What `destroy_when_signaled` was for each fence. -/
  asked : ℕ → Bool
  created : ℕ
  /-- How often each fence was deleted. -/
  deletions : ℕ → ℕ
  /-- A pointer to a deleted fence was used. -/
  usedAfterDelete : Bool

variable {Thread : Type*}

def State.start : State Thread where
  heap := fun _ ↦ none
  registry := fun _ ↦ false
  mTime := 0
  mFences := []
  mInput := []
  threads := fun _ ↦ .idle
  guest := fun _ ↦ none
  asked := fun _ ↦ false
  created := 0
  deletions := fun _ ↦ 0
  usedAfterDelete := false

namespace State

/-- The pointer of `getFromHandle`. -/
def getFromHandle (s : State Thread) (handle : ℕ) : Option Pointer :=
  if s.registry handle then some ⟨handle, ((s.heap handle).map FenceSync.number).getD 0⟩ else none

/-- The fence is still there. -/
def alive (s : State Thread) (fence : Pointer) : Bool :=
  (s.heap fence.address).any fun found ↦ found.number == fence.number

/-- Any use of the object behind a pointer. -/
def use (fence : Pointer) (s : State Thread) : State Thread :=
  { s with usedAfterDelete := s.usedAfterDelete || !s.alive fence }

def mCount (s : State Thread) (fence : Pointer) : ℤ := ((s.heap fence.address).map FenceSync.mCount).getD 0

def shouldDestroyWhenSignaled (s : State Thread) (fence : Pointer) : Bool :=
  ((s.heap fence.address).map FenceSync.mDestroyWhenSignaled).getD false

def setCount (fence : Pointer) (count : ℤ) (s : State Thread) : State Thread := { s with
    heap := Function.update s.heap fence.address
      ((s.heap fence.address).map fun found ↦ { found with mCount := count }) }

variable {fence : Pointer} (s : State Thread)

theorem use_of_alive {s : State Thread} (h : s.alive fence = true) : s.use fence = s := by
  simp [use, h]

theorem alive_setCount (fence : Pointer) (count : ℤ) (other : Pointer) :
    (s.setCount fence count).alive other = s.alive other := by
  unfold alive setCount
  by_cases heq : other.address = fence.address
  · simp [heq, Option.any_map]
  · simp [Function.update_of_ne heq]

theorem shouldDestroyWhenSignaled_setCount (fence : Pointer) (count : ℤ) (other : Pointer) :
    (s.setCount fence count).shouldDestroyWhenSignaled other = s.shouldDestroyWhenSignaled other := by
  unfold shouldDestroyWhenSignaled setCount
  by_cases heq : other.address = fence.address
  · simp [heq, Function.comp_def]
  · simp [Function.update_of_ne heq]

theorem mCount_setCount {s : State Thread} (h : s.alive fence = true) (count : ℤ) :
    (s.setCount fence count).mCount fence = count := by
  obtain ⟨found, hfound, _⟩ := (Option.any_eq_true _ _).mp h
  simp [mCount, setCount, hfound]

theorem setCount_mCount (fence : Pointer) : s.setCount fence (s.mCount fence) = s := by
  have hheap : (s.heap fence.address).map (fun found ↦ { found with mCount := s.mCount fence }) =
      s.heap fence.address := by
    cases hfound : s.heap fence.address with
    | none => rfl
    | some found => simp [mCount, hfound]
  rw [setCount, hheap, Function.update_eq_self]

theorem mCount_setCount_of_ne {other : Pointer} (count : ℤ) (h : other.address ≠ fence.address) :
    (s.setCount fence count).mCount other = s.mCount other := by
  simp [mCount, setCount, Function.update_of_ne h]

variable [DecidableEq Thread]

def goto (thread : Option Thread) (place : Place) (s : State Thread) : State Thread :=
  { s with threads := Function.update s.threads thread place }

/-- `incRef`, and where the thread goes on. -/
def incRef (thread : Option Thread) (fence : Pointer) (place : Place) (s : State Thread) : State Thread :=
  ((s.use fence).setCount fence (s.mCount fence + 1)).goto thread place

/-- A step of `decRef`. `delete this` counts as a deletion of what is at the address, or of the
fence itself again when nothing is there. -/
def decRef (thread : Option Thread) (fence : Pointer) (caller : Caller) : DecRef → State Thread → State Thread
  | .test, s =>
    (s.use fence).goto thread (.dropping fence (if s.mCount fence = 1 then .destroy else .decrement) caller)
  | .decrement, s =>
    ((s.use fence).setCount fence (s.mCount fence - 1)).goto thread
      (if s.mCount fence - 1 = 0 then .dropping fence .destroy caller
        else Place.afterDecRef fence false thread.isNone caller)
  | .destroy, s =>
    { s.use fence with
      registry := Function.update s.registry fence.address false
      threads := Function.update s.threads thread (.dropping fence .free caller) }
  | .free, s =>
    let deleted := ((s.heap fence.address).map FenceSync.number).getD fence.number
    { s.use fence with
      heap := Function.update s.heap fence.address none
      deletions := Function.update s.deletions deleted (s.deletions deleted + 1)
      threads := Function.update s.threads thread (Place.afterDecRef fence true thread.isNone caller) }

end State

inductive Action (Thread : Type*) where
  /-- The allocation and `addToRegistry`; the allocator may choose any free address. -/
  | rcCreateSyncKHR (thread : Thread) (address : ℕ) (hasNativeFence destroyWhenSignaled : Bool)
  /-- Any handle, also one that is out of date. -/
  | rcClientWaitSyncKHR (thread : Thread) (handle : ℕ)
  /-- The guest destroys the fence of this number. -/
  | rcDestroySyncKHR (thread : Thread) (number : ℕ)
  | rcTriggerWait (handle : ℕ)
  /-- The sync thread takes a command off its queue. -/
  | receive
  /-- The sweep looks at one of the keys that are left. -/
  | sweepNext (key : ℕ)
  /-- The next step of a call that is under way. -/
  | proceed (thread : Option Thread)
deriving Repr, DecidableEq

/-- `mItems.emplace`: a key that is there stays as it is. -/
def emplace (key : ℕ) (fenceTime : Int32) (mFences : List (ℕ × Int32)) : List (ℕ × Int32) :=
  if key ∈ mFences.map Prod.fst then mFences else (key, fenceTime) :: mFences

def eraseKey (key : ℕ) (mFences : List (ℕ × Int32)) : List (ℕ × Int32) := mFences.filter fun entry ↦ entry.1 ≠ key

def kMaxGuestTimelines : Int32 := 16

section Steps

variable [DecidableEq Thread]

/-- The constructor has returned, and the guest gets the handle. -/
def State.constructed (thread : Option Thread) (fence : Pointer) (s : State Thread) : State Thread :=
  { s.goto thread .idle with guest := Function.update s.guest fence.number (some fence.address) }

/-- The next step of the call in which a thread is. The lock of `mFences` is held for a whole
sweep. -/
def proceed (thread : Option Thread) (s : State Thread) : Option (State Thread) :=
  match s.threads thread with
  | .idle => none
  | .constructing fence hasNativeFence =>
    if hasNativeFence then some (s.incRef thread fence (.loading fence))
    else some (s.constructed thread fence)
  | .loading fence => some (s.goto thread (.adding fence (s.mTime + kMaxGuestTimelines)))
  | .adding fence fenceTime =>
    match s.threads none with
    | .sweeping _ | .reading _ _ | .dropping _ _ (.sweepFirst _) | .dropping _ _ (.sweepSecond _) =>
      none
    | _ =>
      some { s.constructed thread fence with
        mFences := emplace fence.address fenceTime s.mFences }
  | .found fence => some (s.incRef thread fence (.waiting fence))
  | .waiting fence => some ((s.use fence).goto thread (.dropping fence .test .wait))
  | .dropping fence decRef caller => some (s.decRef thread fence caller decRef)
  | .incrementing =>
    some { s.goto thread (.sweeping ⟨s.mTime + 1, s.mFences.map Prod.fst⟩) with
      mTime := s.mTime + 1 }
  | .sweeping sweep => if sweep.todo = [] then some (s.goto thread .idle) else none
  | .reading fence sweep =>
    if s.shouldDestroyWhenSignaled fence then
      some { (s.use fence).goto thread (.dropping fence .test (.sweepSecond sweep)) with
        guest := Function.update s.guest fence.number none }
    else some ((s.use fence).goto thread (.sweeping sweep))

/-- The function that `sweep` gives to `eraseIf`. -/
def sweepNext (key : ℕ) (s : State Thread) : Option (State Thread) :=
  match s.threads none, s.mFences.find? fun entry ↦ entry.1 = key with
  | .sweeping sweep, some (_, fenceTime) =>
    if key ∈ sweep.todo then
      let rest : Sweep := ⟨sweep.time, sweep.todo.erase key⟩
      match s.getFromHandle key with
      | none => some { s.goto none (.sweeping rest) with mFences := eraseKey key s.mFences }
      | some actual =>
        if fenceTime ≤ sweep.time then
          some { s.goto none (.dropping actual .test (.sweepFirst rest)) with
            mFences := eraseKey key s.mFences }
        else some (s.goto none (.sweeping rest))
    else none
  | _, _ => none

def step : Action Thread → State Thread → Option (State Thread)
  | .rcCreateSyncKHR thread address hasNativeFence destroyWhenSignaled, s =>
    if s.threads (some thread) = .idle ∧ s.heap address = none then
      some { s.goto (some thread) (.constructing ⟨address, s.created⟩ hasNativeFence) with
        heap := Function.update s.heap address (some ⟨s.created, 1, destroyWhenSignaled⟩)
        registry := Function.update s.registry address true
        asked := Function.update s.asked s.created destroyWhenSignaled
        created := s.created + 1 }
    else none
  | .rcClientWaitSyncKHR thread handle, s =>
    if s.threads (some thread) = .idle then
      match s.getFromHandle handle with
      | none => some s
      | some fence => some (s.goto (some thread) (.found fence))
    else none
  | .rcDestroySyncKHR thread number, s =>
    match s.guest number with
    | some handle =>
      if s.threads (some thread) = .idle ∧ s.asked number = false then
        match s.getFromHandle handle with
        | none => some { s with guest := Function.update s.guest number none }
        | some fence =>
          some { s.goto (some thread) (.dropping fence .test .rcDestroySyncKHR) with
            guest := Function.update s.guest number none }
      else none
    | none => none
  | .rcTriggerWait handle, s => some { s with mInput := s.mInput ++ [handle] }
  | .receive, s =>
    match s.threads none, s.mInput with
    | .idle, handle :: mInput =>
      match s.getFromHandle handle with
      | none => some { s with mInput := mInput }
      | some fence => some { s.goto none (.found fence) with mInput := mInput }
    | _, _ => none
  | .sweepNext key, s => sweepNext key s
  | .proceed thread, s => proceed thread s

end Steps

/-- Nobody is deleting the fence of this handle. -/
def Lookable (s : State Thread) (handle : ℕ) : Prop := ∀ thread, (s.threads thread).unregistering ≠ some handle

/-- Nobody else uses the fence without a reference to it. -/
def Unshared (s : State Thread) (thread : Option Thread) (fence : Pointer) : Prop :=
  ∀ other, other ≠ thread → (s.threads other).uncounted ≠ some fence

/-- The last reference of a fence is dropped only while no wait is between its look-up and its
`incRef` and no sweep is between its `decRef` and its look at the flag, and a fence that is being
deleted is not looked up for a wait. -/
def LastDropAlone : Action Thread → State Thread → Prop
  | .rcClientWaitSyncKHR _ handle, s => Lookable s handle
  | .receive, s => ∀ handle ∈ s.mInput.head?, Lookable s handle
  | .proceed thread, s =>
    ∀ fence ∈ (s.threads thread).releasing, s.mCount fence = 1 → Unshared s thread fence
  | _, _ => True

instance [Fintype Thread] (s : State Thread) (handle : ℕ) : Decidable (Lookable s handle) :=
  inferInstanceAs (Decidable (∀ _, _))

instance [Fintype Thread] [DecidableEq Thread] (s : State Thread) (thread : Option Thread)
    (fence : Pointer) : Decidable (Unshared s thread fence) :=
  inferInstanceAs (Decidable (∀ _, _))

instance decidableLastDropAlone [Fintype Thread] [DecidableEq Thread] :
    ∀ (action : Action Thread) (s : State Thread), Decidable (LastDropAlone action s)
  | .rcClientWaitSyncKHR _ handle, s => inferInstanceAs (Decidable (Lookable s handle))
  | .receive, s => inferInstanceAs (Decidable (∀ handle ∈ s.mInput.head?, Lookable s handle))
  | .proceed thread, s => inferInstanceAs (Decidable
      (∀ fence ∈ (s.threads thread).releasing, s.mCount fence = 1 → Unshared s thread fence))
  | .rcCreateSyncKHR _ _ _ _, _ | .rcDestroySyncKHR _ _, _ => isTrue trivial
  | .rcTriggerWait _, _ | .sweepNext _, _ => isTrue trivial

end FdeEmugl.Fences

import FdeEmugl.Library.Runs
import Mathlib.Data.List.Infix
import Mathlib.Data.List.Nodup

/-!
# WorkerThread

A worker takes the whole queue at a time and goes through it; the other threads enqueue items
and sync points. Each critical section of `mLock` is one step, and so is each turn of the
loop over the batch. A signal on `mCv` is given with `mLock` held. A sync point lives on the
stack of its caller, which stays in `waitQueuedItems` until it is signaled; here every sync
point has a number of its own.
-/

namespace FdeEmugl.Threads

open Runs

inductive WorkerProcessingResult where
  | Continue
  | Stop
deriving Repr, DecidableEq

inductive Command (Item : Type*) where
  | workItem (item : Item)
  | syncPoint (sync : ℕ)
deriving Repr, DecidableEq

/-- Where the worker is. -/
inductive Worker (Item : Type*) where
  | asleep
  | awake
  | batch (todo : List (Command Item))
  /-- The function has returned; `todo` is what was left of its batch. -/
  | gone (todo : List (Command Item))
deriving Repr, DecidableEq

/-- Where a thread is in `waitQueuedItems`. -/
inductive Caller where
  | idle
  | checked
  | waiting (sync : ℕ)
deriving Repr, DecidableEq

structure WorkerThread (Item Thread : Type*) where
  mQueue : List (Command Item)
  mStarted : Bool
  mFinished : Bool
  worker : Worker Item
  callers : Thread → Caller
  /-- The sync points whose `signaled` is set. -/
  signaled : List ℕ
  nextSync : ℕ
  /-- All commands that were put on the queue, in order. -/
  pushed : List (Command Item)
  /-- All commands that the worker has gone through, in order. -/
  handled : List (Command Item)

namespace Command

variable {Item : Type*}

def item? : Command Item → Option Item
  | workItem item => some item
  | syncPoint _ => none

def sync? : Command Item → Option ℕ
  | workItem _ => none
  | syncPoint sync => some sync

end Command

namespace Worker

variable {Item : Type*}

def todo : Worker Item → List (Command Item)
  | asleep => []
  | awake => []
  | batch todo => todo
  | gone todo => todo

/-- What `mCv.signal()` does. -/
def wake : Worker Item → Worker Item
  | asleep => awake
  | worker => worker

@[simp] theorem todo_wake (worker : Worker Item) : worker.wake.todo = worker.todo := by
  cases worker with
  | asleep => rfl
  | awake => rfl
  | batch todo => rfl
  | gone todo => rfl

theorem wake_ne_asleep (worker : Worker Item) : worker.wake ≠ asleep := by
  cases worker with
  | asleep => exact nofun
  | awake => exact nofun
  | batch todo => exact nofun
  | gone todo => exact nofun

end Worker

variable {Item Thread : Type*}

/-- The worker has been started, with these items on the queue. -/
def WorkerThread.started (Thread : Type*) (queued : List Item) : WorkerThread Item Thread where
  mQueue := queued.map .workItem
  mStarted := true
  mFinished := false
  worker := .awake
  callers := fun _ ↦ .idle
  signaled := []
  nextSync := 0
  pushed := queued.map .workItem
  handled := []

namespace WorkerThread

/-- The items that were enqueued. -/
def enqueued (s : WorkerThread Item Thread) : List Item := s.pushed.filterMap Command.item?

/-- The items that were given to the processor. -/
def processed (s : WorkerThread Item Thread) : List Item := s.handled.filterMap Command.item?

/-- Only a push onto the empty queue signals. -/
def enqueueImpl (command : Command Item) (s : WorkerThread Item Thread) : WorkerThread Item Thread := { s with
    mQueue := s.mQueue ++ [command]
    worker := if s.mQueue.isEmpty then s.worker.wake else s.worker
    pushed := s.pushed ++ [command] }

end WorkerThread

open WorkerThread

inductive Event (Item Thread : Type*) where
  | enqueue (thread : Thread) (item : Item)
  /-- The test of `mStarted` and `mFinished`. -/
  | waitQueuedItems (thread : Thread)
  | enqueueSync (thread : Thread)
  | waitReturns (thread : Thread)
  /-- A condition variable may wake up without a signal. -/
  | wakeUp
  | takeQueue
  | process (result : WorkerProcessingResult)
  | signalSync
  | clearTodo
deriving Repr, DecidableEq

def step [DecidableEq Thread] : Event Item Thread → WorkerThread Item Thread → Option (WorkerThread Item Thread)
  | .enqueue thread item, s =>
    if s.callers thread = .idle then some (s.enqueueImpl (.workItem item)) else none
  | .waitQueuedItems thread, s =>
    if s.callers thread = .idle then
      if !s.mStarted || s.mFinished then some s
      else some { s with callers := Function.update s.callers thread .checked }
    else none
  | .enqueueSync thread, s =>
    if s.callers thread = .checked then
      some { s.enqueueImpl (.syncPoint s.nextSync) with
        callers := Function.update s.callers thread (.waiting s.nextSync)
        nextSync := s.nextSync + 1 }
    else none
  | .waitReturns thread, s =>
    match s.callers thread with
    | .waiting sync =>
      if sync ∈ s.signaled then some { s with callers := Function.update s.callers thread .idle }
      else none
    | _ => none
  | .wakeUp, s => some { s with worker := s.worker.wake }
  | .takeQueue, s =>
    match s.worker with
    | .awake =>
      if s.mQueue.isEmpty then some { s with worker := .asleep }
      else some { s with worker := .batch s.mQueue, mQueue := [] }
    | _ => none
  | .process result, s =>
    match s.worker with
    | .batch (.workItem item :: todo) =>
      some { s with
        worker := if result = .Stop then .gone todo else .batch todo
        handled := s.handled ++ [.workItem item] }
    | _ => none
  | .signalSync, s =>
    match s.worker with
    | .batch (.syncPoint sync :: todo) =>
      some { s with
        worker := .batch todo
        signaled := sync :: s.signaled
        handled := s.handled ++ [.syncPoint sync] }
    | _ => none
  | .clearTodo, s =>
    match s.worker with
    | .batch [] => some { s with worker := .awake }
    | _ => none

/-- The sync points in a list of commands. -/
def syncs (commands : List (Command Item)) : List ℕ := commands.filterMap Command.sync?

/-- The processor returns `Stop` only when no sync point is left in the batch or on the queue, and
no sync point is put on the queue after the worker has gone. -/
def StopsClean : Event Item Thread → WorkerThread Item Thread → Prop
  | .process .Stop, s => syncs (s.worker.todo ++ s.mQueue) = []
  | .enqueueSync _, s => ∀ todo, s.worker ≠ .gone todo
  | _, _ => True

instance (worker : Worker Item) : Decidable (∀ todo, worker ≠ .gone todo) :=
  match worker with
  | .asleep => isTrue nofun
  | .awake => isTrue nofun
  | .batch _ => isTrue nofun
  | .gone todo => isFalse fun h ↦ h todo rfl

instance decidableStopsClean :
    ∀ (event : Event Item Thread) (s : WorkerThread Item Thread), Decidable (StopsClean event s)
  | .process .Stop, s => inferInstanceAs (Decidable (syncs (s.worker.todo ++ s.mQueue) = []))
  | .enqueueSync _, s => inferInstanceAs (Decidable (∀ todo, s.worker ≠ .gone todo))
  | .process .Continue, _ | .enqueue _ _, _ | .waitQueuedItems _, _ | .waitReturns _, _ => isTrue trivial
  | .wakeUp, _ | .takeQueue, _ | .signalSync, _ | .clearTodo, _ => isTrue trivial

/-- What a step can do. -/
inductive Transition [DecidableEq Thread] (s : WorkerThread Item Thread) :
    Event Item Thread → WorkerThread Item Thread → Prop
  | enqueue {thread : Thread} (item : Item) (hidle : s.callers thread = .idle) :
      Transition s (.enqueue thread item) (s.enqueueImpl (.workItem item))
  | waitNothing {thread : Thread} (hidle : s.callers thread = .idle)
      (hnot : (!s.mStarted || s.mFinished) = true) : Transition s (.waitQueuedItems thread) s
  | waitQueuedItems {thread : Thread} (hidle : s.callers thread = .idle) : Transition s (.waitQueuedItems thread)
        { s with callers := Function.update s.callers thread .checked }
  | enqueueSync {thread : Thread} (hchecked : s.callers thread = .checked) : Transition s (.enqueueSync thread)
        { s.enqueueImpl (.syncPoint s.nextSync) with
          callers := Function.update s.callers thread (.waiting s.nextSync)
          nextSync := s.nextSync + 1 }
  | waitReturns {thread : Thread} {sync : ℕ} (hwaiting : s.callers thread = .waiting sync)
      (hsignaled : sync ∈ s.signaled) :
      Transition s (.waitReturns thread) { s with callers := Function.update s.callers thread .idle }
  | wakeUp : Transition s .wakeUp { s with worker := s.worker.wake }
  | sleep (hworker : s.worker = .awake) (hempty : s.mQueue = []) :
      Transition s .takeQueue { s with worker := .asleep }
  | takeQueue (hworker : s.worker = .awake) :
      Transition s .takeQueue { s with worker := .batch s.mQueue, mQueue := [] }
  | process {item : Item} {todo : List (Command Item)} (result : WorkerProcessingResult)
      (hworker : s.worker = .batch (.workItem item :: todo)) :
      Transition s (.process result) { s with
          worker := if result = .Stop then .gone todo else .batch todo
          handled := s.handled ++ [.workItem item] }
  | signalSync {sync : ℕ} {todo : List (Command Item)} (hworker : s.worker = .batch (.syncPoint sync :: todo)) :
      Transition s .signalSync { s with
          worker := .batch todo
          signaled := sync :: s.signaled
          handled := s.handled ++ [.syncPoint sync] }
  | clearTodo (hworker : s.worker = .batch []) : Transition s .clearTodo { s with worker := .awake }

theorem transition_of_step [DecidableEq Thread] {event : Event Item Thread}
    {s next : WorkerThread Item Thread} (hstep : step event s = some next) :
    Transition s event next := by
  cases event with
  | enqueue thread item =>
    obtain ⟨hidle, hnext⟩ := Option.ite_none_right_eq_some.mp hstep
    exact Option.some.inj hnext ▸ .enqueue item hidle
  | waitQueuedItems thread =>
    obtain ⟨hidle, hnext⟩ := Option.ite_none_right_eq_some.mp hstep
    split at hnext
    · exact Option.some.inj hnext ▸ .waitNothing hidle ‹_›
    · exact Option.some.inj hnext ▸ .waitQueuedItems hidle
  | enqueueSync thread =>
    obtain ⟨hchecked, hnext⟩ := Option.ite_none_right_eq_some.mp hstep
    exact Option.some.inj hnext ▸ .enqueueSync hchecked
  | waitReturns thread =>
    simp only [step] at hstep
    split at hstep
    · obtain ⟨hsignaled, hnext⟩ := Option.ite_none_right_eq_some.mp hstep
      exact Option.some.inj hnext ▸ .waitReturns ‹_› hsignaled
    · cases hstep
  | wakeUp => exact Option.some.inj hstep ▸ .wakeUp
  | takeQueue =>
    simp only [step] at hstep
    split at hstep
    · split at hstep
      · exact Option.some.inj hstep ▸ .sleep ‹_› (List.isEmpty_iff.mp ‹_›)
      · exact Option.some.inj hstep ▸ .takeQueue ‹_›
    · cases hstep
  | process result =>
    simp only [step] at hstep
    split at hstep
    · exact Option.some.inj hstep ▸ .process result ‹_›
    · cases hstep
  | signalSync =>
    simp only [step] at hstep
    split at hstep
    · exact Option.some.inj hstep ▸ .signalSync ‹_›
    · cases hstep
  | clearTodo =>
    simp only [step] at hstep
    split at hstep
    · exact Option.some.inj hstep ▸ .clearTodo ‹_›
    · cases hstep

/-! ## The order of the commands -/

theorem syncs_append (first second : List (Command Item)) :
    syncs (first ++ second) = syncs first ++ syncs second := List.filterMap_append

/-- Every command is where it was put, or was handled; the sync points are those of the callers. -/
structure InOrder (s : WorkerThread Item Thread) : Prop where
  pushed_eq : s.pushed = s.handled ++ (s.worker.todo ++ s.mQueue)
  fresh : ∀ sync ∈ syncs s.pushed, sync < s.nextSync
  once : (syncs s.pushed).Nodup
  signaled_iff : ∀ sync, sync ∈ s.signaled ↔ sync ∈ syncs s.handled
  waiting : ∀ thread sync, s.callers thread = .waiting sync → sync ∈ syncs s.pushed
  asleep : s.worker = .asleep → s.mQueue = []
  running : s.mStarted = true ∧ s.mFinished = false

section Steps

variable {s next : WorkerThread Item Thread}

variable {todo : List (Command Item)}

theorem inOrder_started (queued : List Item) : InOrder (started Thread queued) := by
  have hnone : syncs (queued.map Command.workItem) = [] := by
    rw [syncs, List.filterMap_map]
    exact List.filterMap_eq_nil_iff.mpr fun _ _ ↦ rfl
  refine ⟨rfl, ?_, ?_, fun sync ↦ Iff.rfl, ?_, nofun, rfl, rfl⟩
  · intro sync h
    simp only [started, hnone, List.not_mem_nil] at h
  · simp only [started, hnone, List.nodup_nil]
  · intro thread sync h
    cases h

theorem todo_enqueueImpl (command : Command Item) (s : WorkerThread Item Thread) :
    (s.enqueueImpl command).worker.todo = s.worker.todo := by
  simp only [enqueueImpl]
  split
  · exact s.worker.todo_wake
  · rfl

/-- A push onto the empty queue wakes the worker, any other push finds it awake. -/
theorem InOrder.not_asleep (h : InOrder s) (command : Command Item) : (s.enqueueImpl command).worker ≠ .asleep := by
  simp only [enqueueImpl]
  split
  · exact s.worker.wake_ne_asleep
  · rename_i hqueue
    intro hasleep
    exact hqueue (by rw [h.asleep hasleep]; rfl)

theorem InOrder.enqueueItem (h : InOrder s) (item : Item) : InOrder (s.enqueueImpl (.workItem item)) := by
  have hsyncs : syncs (s.enqueueImpl (.workItem item)).pushed = syncs s.pushed := by
    rw [enqueueImpl, syncs_append]
    exact List.append_nil _
  refine ⟨?_, ?_, ?_, h.signaled_iff, ?_, fun hasleep ↦ absurd hasleep (h.not_asleep _), h.running⟩
  · rw [todo_enqueueImpl]
    simp only [enqueueImpl, h.pushed_eq, List.append_assoc]
  · rw [hsyncs]
    exact h.fresh
  · rw [hsyncs]
    exact h.once
  · rw [hsyncs]
    exact h.waiting

/-- The worker is done with the first command of its batch. -/
theorem InOrder.handle (h : InOrder s) {command : Command Item} {worker : Worker Item} {signaled : List ℕ}
    (hworker : s.worker = .batch (command :: todo)) (htodo : worker.todo = todo) (hawake : worker ≠ .asleep)
    (hsignaled : ∀ sync, sync ∈ signaled ↔ sync ∈ syncs s.handled ∨ sync ∈ syncs [command]) :
    InOrder { s with
      worker := worker, signaled := signaled, handled := s.handled ++ [command] } := by
  refine ⟨?_, h.fresh, h.once, ?_, h.waiting, fun hasleep ↦ absurd hasleep hawake, h.running⟩
  · rw [h.pushed_eq, hworker, htodo, List.append_assoc]
    rfl
  · intro sync
    rw [hsignaled, syncs_append, List.mem_append]

/-! ## After the processor has returned `Stop` -/

/-- No sync point was left behind. -/
def LeftClean (s : WorkerThread Item Thread) : Prop := ∀ todo, s.worker = .gone todo → syncs (todo ++ s.mQueue) = []

theorem gone_of_wake {worker : Worker Item} (h : worker.wake = .gone todo) : worker = .gone todo := by
  cases worker with
  | asleep => cases h
  | awake => cases h
  | batch => cases h
  | gone => exact h

theorem gone_of_enqueueImpl (command : Command Item) (h : (s.enqueueImpl command).worker = .gone todo) :
    s.worker = .gone todo := by
  simp only [enqueueImpl] at h
  split at h
  · exact gone_of_wake h
  · exact h

/-- Whoever waits then has been signaled. -/
theorem LeftClean.signaled (hclean : LeftClean s) (h : InOrder s) (hgone : s.worker = .gone todo)
    {thread : Thread} {sync : ℕ} (hwaiting : s.callers thread = .waiting sync) : sync ∈ s.signaled := by
  have hpushed := h.waiting thread sync hwaiting
  rw [h.pushed_eq, syncs_append, hgone, Worker.todo, hclean todo hgone, List.append_nil] at hpushed
  exact (h.signaled_iff sync).mpr hpushed

theorem leftClean_started (queued : List Item) : LeftClean (started Thread queued) := by
  intro todo hgone
  cases hgone

section Callers

variable [DecidableEq Thread]

variable {event : Event Item Thread} {thread : Thread} {before : List (Command Item)}

/-- What holds of the sync points that are waited for holds after one thread has moved. -/
theorem waiting_update {P : ℕ → Prop} {callers : Thread → Caller} {caller : Caller} (thread : Thread)
    (hold : ∀ other sync, callers other = .waiting sync → P sync)
    (hnew : ∀ sync, caller = .waiting sync → P sync) (other : Thread) (sync : ℕ)
    (h : Function.update callers thread caller other = .waiting sync) : P sync := by
  by_cases hother : other = thread
  · rw [hother, Function.update_self] at h
    exact hnew sync h
  · rw [Function.update_of_ne hother] at h
    exact hold other sync h

/-- The number of a new sync point is not in use. -/
theorem InOrder.enqueueSync (h : InOrder s) (thread : Thread) : InOrder { s.enqueueImpl (.syncPoint s.nextSync) with
      callers := Function.update s.callers thread (.waiting s.nextSync)
      nextSync := s.nextSync + 1 } := by
  have hsyncs : syncs (s.enqueueImpl (.syncPoint s.nextSync)).pushed = syncs s.pushed ++ [s.nextSync] := by
    rw [enqueueImpl, syncs_append]
    rfl
  refine ⟨?_, ?_, ?_, h.signaled_iff, ?_,
    fun hasleep ↦ absurd hasleep (h.not_asleep (.syncPoint s.nextSync)), h.running⟩
  · simp only [todo_enqueueImpl]
    simp only [enqueueImpl, h.pushed_eq, List.append_assoc]
  · intro sync hsync
    rw [hsyncs, List.mem_append, List.mem_singleton] at hsync
    rcases hsync with hsync | rfl
    · exact Nat.lt_succ_of_lt (h.fresh sync hsync)
    · exact Nat.lt_succ_self _
  · rw [hsyncs]
    apply List.Nodup.append h.once (List.nodup_singleton _)
    rw [List.disjoint_singleton]
    exact fun hmem ↦ absurd (h.fresh _ hmem) (Nat.lt_irrefl _)
  · rw [hsyncs]
    refine waiting_update thread (P := (· ∈ syncs s.pushed ++ [s.nextSync])) ?_ ?_
    · intro other sync hwaiting
      exact List.mem_append_left _ (h.waiting other sync hwaiting)
    · intro sync hwaiting
      cases hwaiting
      exact List.mem_append_right _ (List.mem_singleton_self _)

/-- A caller that goes elsewhere than to wait. -/
theorem InOrder.updateCaller (h : InOrder s) (thread : Thread) {caller : Caller}
    (hcaller : ∀ sync, caller ≠ .waiting sync) :
    InOrder { s with callers := Function.update s.callers thread caller } := by
  refine ⟨h.pushed_eq, h.fresh, h.once, h.signaled_iff, ?_, h.asleep, h.running⟩
  refine waiting_update thread h.waiting ?_
  intro sync hwaiting
  exact absurd hwaiting (hcaller sync)

theorem inOrder_step (h : InOrder s) (hstep : step event s = some next) : InOrder next := by
  cases transition_of_step hstep with
  | enqueue item => exact h.enqueueItem item
  | waitNothing => exact h
  | waitQueuedItems => exact h.updateCaller _ nofun
  | enqueueSync => exact h.enqueueSync _
  | waitReturns => exact h.updateCaller _ nofun
  | wakeUp =>
    refine ⟨?_, h.fresh, h.once, h.signaled_iff, h.waiting, ?_, h.running⟩
    · simpa only [Worker.todo_wake] using h.pushed_eq
    · intro hasleep
      exact absurd hasleep s.worker.wake_ne_asleep
  | sleep hworker hempty =>
    refine ⟨?_, h.fresh, h.once, h.signaled_iff, h.waiting, fun _ ↦ hempty, h.running⟩
    simpa only [hworker, Worker.todo] using h.pushed_eq
  | takeQueue hworker =>
    refine ⟨?_, h.fresh, h.once, h.signaled_iff, h.waiting, nofun, h.running⟩
    simpa only [hworker, Worker.todo, List.nil_append, List.append_nil] using h.pushed_eq
  | process result hworker =>
    apply h.handle hworker
    · split <;> rfl
    · split <;> exact nofun
    · intro sync
      rw [h.signaled_iff]
      exact (or_iff_left List.not_mem_nil).symm
  | signalSync hworker =>
    rename_i sync todo
    refine h.handle hworker (show (Worker.batch todo).todo = todo from rfl) nofun ?_
    intro other
    rw [List.mem_cons, h.signaled_iff, or_comm]
    exact or_congr_right List.mem_singleton.symm
  | clearTodo hworker =>
    refine ⟨?_, h.fresh, h.once, h.signaled_iff, h.waiting, nofun, h.running⟩
    simpa only [hworker, Worker.todo] using h.pushed_eq

/-! ## A call of `waitQueuedItems` -/

theorem pushed_step (hstep : step event s = some next) : s.pushed <+: next.pushed := by
  cases transition_of_step hstep with
  | enqueue => exact List.prefix_append _ _
  | enqueueSync => exact List.prefix_append _ _
  | _ => exact List.prefix_rfl

/-- The thread is in a call that began when `before` had been pushed. -/
def InCall (before : List (Command Item)) (thread : Thread) (s : WorkerThread Item Thread) : Prop :=
  (s.callers thread = .checked ∧ before <+: s.pushed) ∨ ∃ sync middle, s.callers thread = .waiting sync ∧
      before ++ middle ++ [.syncPoint sync] <+: s.pushed

theorem callers_step (hstep : step event s = some next) (hcall : s.callers thread ≠ .idle)
    (hreturn : event ≠ .waitReturns thread) (hsync : event ≠ .enqueueSync thread) :
    next.callers thread = s.callers thread := by
  have hother {other : Thread} {caller : Caller} (hne : thread ≠ other) :
      Function.update s.callers other caller thread = s.callers thread :=
    Function.update_of_ne hne caller s.callers
  cases transition_of_step hstep with
  | waitQueuedItems hidle => exact hother fun heq ↦ hcall (heq ▸ hidle)
  | enqueueSync => exact hother fun heq ↦ hsync (heq ▸ rfl)
  | waitReturns => exact hother fun heq ↦ hreturn (heq ▸ rfl)
  | _ => rfl

theorem inCall_step (h : InCall before thread s) (hreturn : event ≠ .waitReturns thread)
    (hstep : step event s = some next) : InCall before thread next := by
  have hpushed := pushed_step hstep
  rcases h with ⟨hchecked, hbefore⟩ | ⟨sync, middle, hwaiting, hbefore⟩
  · by_cases hsync : event = .enqueueSync thread
    · subst hsync
      obtain ⟨middle, hmiddle⟩ := hbefore
      cases transition_of_step hstep with
      | enqueueSync =>
        refine .inr ⟨s.nextSync, middle, Function.update_self .., ?_⟩
        rw [hmiddle]
        exact List.prefix_rfl
    · left
      have hcallers := callers_step hstep (by rw [hchecked]; exact nofun) hreturn hsync
      exact ⟨hcallers.trans hchecked, hbefore.trans hpushed⟩
  · right
    have hsync : event ≠ .enqueueSync thread := by
      rintro rfl
      cases transition_of_step hstep with
      | enqueueSync hchecked => rw [hwaiting] at hchecked; cases hchecked
    have hcallers := callers_step hstep (by rw [hwaiting]; exact nofun) hreturn hsync
    exact ⟨sync, middle, hcallers.trans hwaiting, hbefore.trans hpushed⟩

/-- When the sync point of the call is signaled, the worker has been through all that was pushed
before the call. -/
theorem handled_of_inCall (h : InOrder s) (hcall : InCall before thread s)
    (hreturn : (step (.waitReturns thread) s).isSome) : before <+: s.handled := by
  obtain ⟨last, hlast⟩ := Option.isSome_iff_exists.mp hreturn
  rcases hcall with ⟨hchecked, -⟩ | ⟨sync, middle, hwaiting, hbefore⟩
  · cases transition_of_step hlast with
    | waitReturns hwaiting => rw [hchecked] at hwaiting; cases hwaiting
  · have hsignaled : sync ∈ syncs s.handled := by
      cases transition_of_step hlast with
      | waitReturns hwaiting' hsignaled =>
        rw [hwaiting, Caller.waiting.injEq] at hwaiting'
        exact (h.signaled_iff sync).mp (hwaiting' ▸ hsignaled)
    have hhandled : s.handled <+: s.pushed := ⟨_, h.pushed_eq.symm⟩
    have hmiddle : before ++ middle <+: s.pushed := (List.prefix_append _ _).trans hbefore
    rcases List.prefix_or_prefix_of_prefix hmiddle hhandled with hle | hge
    · exact (List.prefix_append _ _).trans hle
    · -- the sync point would have been pushed twice
      have hfirst : sync ∈ syncs (before ++ middle) := (hge.filterMap _).subset hsignaled
      have honce := (hbefore.filterMap Command.sync?).sublist.nodup h.once
      rw [List.filterMap_append] at honce
      exact absurd (List.mem_singleton_self sync) (List.disjoint_of_nodup_append honce hfirst)

theorem inCall_run {events : List (Event Item Thread)} (h : InCall before thread s)
    (hreturn : .waitReturns thread ∉ events) (hrun : run step s events = some next) :
    InCall before thread next := by
  have hallowed : ∀ event ∈ events, event ≠ .waitReturns thread := by
    rintro event hevent rfl
    exact hreturn hevent
  have hstep : ∀ event (s next : WorkerThread Item Thread), InCall before thread s →
      event ≠ .waitReturns thread → step event s = some next → InCall before thread next :=
    fun _ _ _ h hne hstep ↦ inCall_step h hne hstep
  exact invariant_of_guarded (InCall before thread) hstep h (guarded_of_mem s hallowed) hrun

theorem leftClean_step (h : LeftClean s) (hguard : StopsClean event s) (hstep : step event s = some next) :
    LeftClean next := by
  cases transition_of_step hstep with
  | enqueue item =>
    intro todo hgone
    have hclean := h todo (gone_of_enqueueImpl _ hgone)
    rw [enqueueImpl, ← List.append_assoc, syncs_append, hclean]
    rfl
  | enqueueSync =>
    intro todo hgone
    exact absurd (gone_of_enqueueImpl (.syncPoint s.nextSync) hgone) (hguard todo)
  | wakeUp => exact fun todo hgone ↦ h todo (gone_of_wake hgone)
  | sleep => exact nofun
  | takeQueue => exact nofun
  | process result hworker =>
    intro todo hgone
    split at hgone
    · rename_i hstop
      subst hstop
      cases hgone
      have hclean : syncs (s.worker.todo ++ s.mQueue) = [] := hguard
      rw [hworker] at hclean
      exact hclean
    · cases hgone
  | signalSync => exact nofun
  | clearTodo => exact nofun
  | waitNothing => exact h
  | waitQueuedItems => exact h
  | waitReturns => exact h

end Callers

end Steps

/-- In every state: the items are processed in the order in which they were enqueued, and the worker
sleeps only when it has processed them all; a call of `waitQueuedItems` returns only after all
items that had been enqueued before it; and once the worker has gone no one waits in vain. -/
theorem barrier_of_stopsClean [DecidableEq Thread] {queued : List Item}
    {events : List (Event Item Thread)} {s : WorkerThread Item Thread}
    (hguard : Guarded step StopsClean (WorkerThread.started Thread queued) events)
    (hrun : run step (WorkerThread.started Thread queued) events = some s) :
    s.processed <+: s.enqueued ∧
    (s.worker = .asleep → s.processed = s.enqueued) ∧
    (∀ first thread middle, events = first ++ .waitQueuedItems thread :: middle →
      .waitReturns thread ∉ middle → (step (.waitReturns thread) s).isSome →
      ∃ atCall, run step (WorkerThread.started Thread queued) first = some atCall ∧
        atCall.enqueued <+: s.processed) ∧
    (∀ todo, s.worker = .gone todo → ∀ thread sync, s.callers thread = .waiting sync →
      sync ∈ s.signaled ∨ s.mFinished = true) := by
  have hinit : InOrder (WorkerThread.started Thread queued) := inOrder_started queued
  have h := invariant_of_run (fun _ _ _ h hstep ↦ inOrder_step h hstep) hinit hrun
  have hclean := invariant_of_guarded LeftClean
    (fun _ _ _ h hguard hstep ↦ leftClean_step h hguard hstep) (leftClean_started queued) hguard hrun
  have hhandled : s.handled <+: s.pushed := ⟨_, h.pushed_eq.symm⟩
  refine ⟨hhandled.filterMap _, ?_, ?_, ?_⟩
  · intro hasleep
    have hpushed := h.pushed_eq
    rw [hasleep, h.asleep hasleep, Worker.todo, List.append_nil, List.append_nil] at hpushed
    rw [WorkerThread.processed, WorkerThread.enqueued, hpushed]
  · intro first thread middle hevents hreturn hsome
    rw [hevents, run_append] at hrun
    obtain ⟨atCall, hfirst, hrest⟩ := Option.bind_eq_some_iff.mp hrun
    obtain ⟨called, hcall, hmiddle⟩ := Option.bind_eq_some_iff.mp hrest
    have hat := invariant_of_run (fun _ _ _ h hstep ↦ inOrder_step h hstep) hinit hfirst
    have hin : InCall atCall.pushed thread called := by
      cases transition_of_step hcall with
      | waitNothing _ hnot => rw [hat.running.1, hat.running.2] at hnot; cases hnot
      | waitQueuedItems => exact .inl ⟨Function.update_self .., List.prefix_rfl⟩
    exact ⟨atCall, hfirst,
      (handled_of_inCall h (inCall_run hin hreturn hmiddle) hsome).filterMap _⟩
  · intro todo hgone thread sync hwaiting
    exact .inl (hclean.signaled h hgone hwaiting)

/-- A caller waits for its item; the item after it stops the worker. -/
def stopped : List (Event Bool Unit) :=
  [.enqueue () true, .waitQueuedItems (), .enqueueSync (), .takeQueue, .process .Continue,
    .signalSync, .waitReturns (), .enqueue () false, .clearTodo, .takeQueue, .process .Stop]

theorem barrier_of_stopsClean_stopped :
    Guarded step StopsClean (WorkerThread.started Unit []) stopped ∧
      ∃ s, run step (WorkerThread.started Unit []) stopped = some s ∧ s.worker = .gone [] ∧
        s.enqueued = [true, false] ∧ s.processed <+: s.enqueued := by
  have hguard : Guarded step StopsClean (WorkerThread.started Unit []) stopped := by decide
  refine ⟨hguard, _, rfl, rfl, rfl, ?_⟩
  exact (barrier_of_stopsClean hguard rfl).1

/-- The item that stops the worker is in one batch with the sync point of the caller, which is not
signaled any more. -/
theorem waits_forever :
    ∃ s, run step (WorkerThread.started Unit [])
        [.enqueue () false, .waitQueuedItems (), .enqueueSync (), .takeQueue, .process .Stop] =
          some s ∧
      s.worker = .gone [.syncPoint 0] ∧ s.callers () = .waiting 0 ∧
        ¬ (0 ∈ s.signaled ∨ s.mFinished = true) := by
  refine ⟨_, rfl, rfl, rfl, ?_⟩
  decide

end FdeEmugl.Threads

import FdeEmugl.Library.CancelQueue
import FdeEmugl.Library.Runs

/-!
# DeviceContextRunner

Operations on pipes are performed at once by a thread that holds the VM lock, and are put off until the next
timer event otherwise. A timer event performs them under `mLock`. Any number of threads take turns; a turn is
what happens up to the next place where another thread could come in between. To perform
`PIPE_WAKE_CLOSED` is to close the pipe, which aborts its pending operations.
-/

namespace FdeEmugl.DeviceContextRunner

open CancelQueue

inductive ContextRunMode where
  | DeferIfNotLocked
  | DeferAlways
deriving DecidableEq

/-- `serial` tells operations that are queued apart. -/
structure PipeWakeCommand where
  serial : ℕ
  hwPipe : ℕ
  wakeFlags : UInt32
deriving DecidableEq

def PIPE_WAKE_CLOSED : UInt32 := 1

def PipeWakeCommand.closes (cmd : PipeWakeCommand) : Bool := cmd.wakeFlags &&& PIPE_WAKE_CLOSED ≠ 0

/-- Where a thread is. What was called by the loop of a timer event goes back to the turn it came from, anything
else was called by the thread itself. -/
inductive Code where
  | idle
  | test (op : PipeWakeCommand)
  | pushLock (op : PipeWakeCommand)
  | push (op : PipeWakeCommand)
  | timerLock
  | timerLoop (index : ℕ)
  | timerClear
  | perform (op : PipeWakeCommand) (caller : Option ℕ)
  | abortLock (hwPipe : ℕ) (caller : Option ℕ)
  | abortErase (hwPipe : ℕ) (caller : Option ℕ)
  | abortUnlock (hwPipe : ℕ) (caller : Option ℕ)
  | abortReturn (hwPipe : ℕ) (caller : Option ℕ)
  | close (hwPipe : ℕ)
  | modeLock (mode : ContextRunMode)
  | modeSet (mode : ContextRunMode)
  | unlock
deriving DecidableEq

/-- Where the caller goes on. -/
def Code.back : Option ℕ → Code
  | none => .idle
  | some index => .timerLoop (index + 1)

/-- The next turn of the thread waits for `mLock`. -/
def Code.waits : Code → Bool
  | .pushLock _ | .timerLock | .abortLock _ _ | .modeLock _ => true
  | _ => false

/-- `closed` are the pipes that the device has closed, `queued` counts the operations, and `events` is the history
of what was put off, performed and aborted. -/
structure Runner where
  mContextRunMode : ContextRunMode
  vmLock : Option ℕ
  mLock : Option ℕ
  mPending : List PipeWakeCommand
  closed : List ℕ
  queued : ℕ
  events : List (Event PipeWakeCommand ℕ)
  code : ℕ → Code

inductive Call where
  | queueDeviceOperation (hwPipe : ℕ) (wakeFlags : UInt32)
  | onTimerEvent
  | abortPending (hwPipe : ℕ)
  | close (hwPipe : ℕ)
  | setContextRunMode (mode : ContextRunMode)
deriving DecidableEq

namespace Runner

variable (s : Runner) (t : ℕ)

def init : Runner := ⟨.DeferIfNotLocked, none, none, [], [], 0, [], fun _ ↦ .idle⟩

def goto (code : Code) : Runner := { s with code := Function.update s.code t code }

def lock (code : Code) : Option Runner :=
  if s.mLock = none then some ({ s with mLock := some t }.goto t code) else none

/-- A thread that is not in a call begins one. -/
def begin (call : Call) : Option Runner :=
  if s.code t = .idle then
    match call with
    | .queueDeviceOperation hwPipe wakeFlags =>
      some ({ s with queued := s.queued + 1 }.goto t (.test ⟨s.queued, hwPipe, wakeFlags⟩))
    | .onTimerEvent => some (s.goto t .timerLock)
    | .abortPending hwPipe => some (s.goto t (.abortLock hwPipe none))
    | .close hwPipe => some (s.goto t (.close hwPipe))
    | .setContextRunMode mode => some (s.goto t (.modeLock mode))
  else none

/-- The device closes a pipe that is open: its pending operations are aborted. -/
def eraseFdInfo (hwPipe : ℕ) (caller : Option ℕ) : Runner :=
  if hwPipe ∈ s.closed then s.goto t (.back caller)
  else { s with closed := hwPipe :: s.closed }.goto t (.abortLock hwPipe caller)

/-- The wake callback of the device does not come back to the runner. -/
def performDeviceOperation (op : PipeWakeCommand) (caller : Option ℕ) : Runner :=
  let s := { s with events := s.events ++ [if caller.isSome then Event.taken op else Event.direct op] }
  if op.closes then s.eraseFdInfo t op.hwPipe caller else s.goto t (.back caller)

/-- The next turn of a thread. -/
def resume : Option Runner :=
  match s.code t with
  | .idle => none
  | .test op =>
    if s.mContextRunMode = .DeferIfNotLocked ∧ s.vmLock = some t then some (s.goto t (.perform op none))
    else some (s.goto t (.pushLock op))
  | .pushLock op => s.lock t (.push op)
  | .push op =>
    some ({ s with mPending := s.mPending ++ [op], events := s.events ++ [Event.entered op] }.goto t .unlock)
  | .timerLock => s.lock t (.timerLoop 0)
  | .timerLoop index =>
    match s.mPending[index]? with
    | some op => some (s.goto t (.perform op (some index)))
    | none => some (s.goto t .timerClear)
  | .timerClear => some ({ s with mPending := [] }.goto t .unlock)
  | .perform op caller => some (s.performDeviceOperation t op caller)
  | .abortLock hwPipe caller => s.lock t (.abortErase hwPipe caller)
  | .abortErase hwPipe caller =>
    some ({ s with
      mPending := s.mPending.filter fun op ↦ op.hwPipe ≠ hwPipe
      events := s.events ++ [Event.cancelled hwPipe] }.goto t (.abortUnlock hwPipe caller))
  | .abortUnlock hwPipe caller => some ({ s with mLock := none }.goto t (.abortReturn hwPipe caller))
  | .abortReturn hwPipe caller => some ({ s with events := s.events ++ [Event.over hwPipe] }.goto t (.back caller))
  | .close hwPipe => some (s.eraseFdInfo t hwPipe none)
  | .modeLock mode => s.lock t (.modeSet mode)
  | .modeSet mode => some ({ s with mContextRunMode := mode }.goto t .unlock)
  | .unlock => some ({ s with mLock := none }.goto t .idle)

end Runner

inductive RunnerLabel where
  | begin (t : ℕ) (call : Call)
  | resume (t : ℕ)
  | takeVmLock (t : ℕ)
  | dropVmLock (t : ℕ)
deriving DecidableEq

def runnerStep : RunnerLabel → Runner → Option Runner
  | .begin t call, s => s.begin t call
  | .resume t, s => s.resume t
  | .takeVmLock t, s => if s.vmLock = none then some { s with vmLock := some t } else none
  | .dropVmLock t, s => if s.vmLock = some t then some { s with vmLock := none } else none

end FdeEmugl.DeviceContextRunner

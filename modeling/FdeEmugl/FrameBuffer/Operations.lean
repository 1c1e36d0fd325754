import FdeEmugl.FrameBuffer.ColorBuffers
import Mathlib.Algebra.Group.Nat.Defs
import Mathlib.Data.List.Sort

/-!
# FrameBuffer operations

The handle maps of `FrameBuffer`, the indexes of who owns what, and the operations that
guests reach through render threads. Every operation holds `m_lock` and is one step.

A thread is named by its `pthread_t`. What EGL answers (a configuration exists, an object
could be created) and whether a post gets past the checks of its window are given with the
call. A hash set is a list, and the order in which a loop visits it is given with the call;
a set that is absent from its map is an empty one. The contents of the objects,
EGL images, cleanup callbacks and `m_windowSurfaceToColorBuffer` are left out.
-/

namespace FdeEmugl.Fb

open ColorBuffers

abbrev ThreadId := UInt64

/-- The `RenderThreadInfo` of a thread. -/
structure RenderThreadInfo where
  m_puid : UInt64
  m_contextSet : List HandleType
  m_windowSet : List HandleType
deriving Repr, DecidableEq

/-- A window surface with the handle of the color buffer attached to it, 0 for none. -/
structure Window where
  attached : HandleType
  /-- `mColorBuffers`, a `std::set`: ascending. -/
  mColorBuffers : List HandleType
deriving Repr, DecidableEq

def Window.ownColorBuffer (cb : HandleType) (window : Window) : Window :=
  if cb ∈ window.mColorBuffers then window
  else { window with mColorBuffers := window.mColorBuffers.orderedInsert (· ≤ ·) cb }

structure FrameBuffer where
  s_nextHandle : HandleType
  m_contexts : HandleType → Bool
  m_windows : HandleType → Option Window
  colorBuffers : ColorBuffers
  m_buffers : HandleType → Bool
  m_procOwnedWindowSurfaces : UInt64 → List HandleType
  m_procOwnedColorBuffers : UInt64 → List HandleType
  m_procOwnedRenderContext : UInt64 → List HandleType
  m_pthreadOwnedColorBuffers : ThreadId → List HandleType
  tInfo : ThreadId → RenderThreadInfo
  mOutstandingColorBufferDestroys : List HandleType
  m_shuttingDown : Bool

/-- Why an operation does not return. -/
inductive Fault where
  | undefinedBehaviour
  | abort
  | endlessLoop
deriving Repr, DecidableEq

namespace FrameBuffer

def new : FrameBuffer where
  s_nextHandle := 0
  m_contexts := fun _ ↦ false
  m_windows := fun _ ↦ none
  colorBuffers := .new
  m_buffers := fun _ ↦ false
  m_procOwnedWindowSurfaces := fun _ ↦ []
  m_procOwnedColorBuffers := fun _ ↦ []
  m_procOwnedRenderContext := fun _ ↦ []
  m_pthreadOwnedColorBuffers := fun _ ↦ []
  tInfo := fun _ ↦ ⟨0, [], []⟩
  mOutstandingColorBufferDestroys := []
  m_shuttingDown := false

/-- `m_colorbuffers`. -/
def m_colorbuffers (s : FrameBuffer) : HandleType → Option ColorBufferRef := s.colorBuffers.m_colorbuffers

/-! ## Handles -/

/-- An id that `genHandle_locked` passes over. -/
def taken (s : FrameBuffer) (id : HandleType) : Bool :=
  id = 0 || s.m_contexts id || (s.m_windows id).isSome || (s.m_colorbuffers id).isSome || s.m_buffers id

/-- The ids tried one after the other. -/
def genHandleFrom (s : FrameBuffer) : ℕ → HandleType → Option HandleType
  | 0, _ => none
  | fuel + 1, next => if s.taken (next + 1) then s.genHandleFrom fuel (next + 1) else some (next + 1)

/-- After 2^32 ids the loop has seen all of them and never ends. -/
def genHandle_locked (s : FrameBuffer) : Except Fault (HandleType × FrameBuffer) :=
  match s.genHandleFrom (2 ^ 32) s.s_nextHandle with
  | none => .error .endlessLoop
  | some id => .ok (id, { s with s_nextHandle := id })

/-! ## Creation -/

def sweepColorBuffersLocked (s : FrameBuffer) : FrameBuffer := { s with
    colorBuffers := s.mOutstandingColorBufferDestroys.foldl
      (fun cbs handle ↦ (cbs.decColorBufferRefCountLocked handle).2) s.colorBuffers
    mOutstandingColorBufferDestroys := [] }

/-- What is recorded for a new color buffer besides its reference. -/
def ownNewColorBuffer (host : Host) (thread : ThreadId) (handle : HandleType) (s : FrameBuffer) : FrameBuffer :=
  if host.m_refCountPipeEnabled then s
  else
    let s :=
      if 0 < host.apiLevel ∧ host.apiLevel < 26 ∧ (s.tInfo thread).m_puid ≠ 0 then
        { s with
          m_procOwnedColorBuffers := Function.update s.m_procOwnedColorBuffers (s.tInfo thread).m_puid
            (handle :: s.m_procOwnedColorBuffers (s.tInfo thread).m_puid) }
      else s
    { s with
      m_pthreadOwnedColorBuffers := Function.update s.m_pthreadOwnedColorBuffers thread
        (handle :: s.m_pthreadOwnedColorBuffers thread) }

def createColorBufferWithHandleLocked (host : Host) (thread : ThreadId) (isCreated : Bool)
    (handle : HandleType) (s : FrameBuffer) : Except Fault (HandleType × FrameBuffer) :=
  let s := s.sweepColorBuffersLocked
  if isCreated then
    if (s.m_colorbuffers handle).isSome then .error .abort
    else
      .ok (handle, { s with colorBuffers := s.colorBuffers.set handle created }.ownNewColorBuffer host thread handle)
  else .ok (0, s)

def createColorBuffer (host : Host) (thread : ThreadId) (isCreated : Bool) (s : FrameBuffer) :
    Except Fault (HandleType × FrameBuffer) :=
  match s.sweepColorBuffersLocked.genHandle_locked with
  | .error fault => .error fault
  | .ok (handle, s) => s.createColorBufferWithHandleLocked host thread isCreated handle

def createColorBufferWithHandle (host : Host) (thread : ThreadId) (isCreated : Bool)
    (handle : HandleType) (s : FrameBuffer) : Except Fault FrameBuffer :=
  if (s.m_colorbuffers handle).isSome then .error .abort
  else (s.createColorBufferWithHandleLocked host thread isCreated handle).map Prod.snd

def createBufferWithHandleLocked (isCreated : Bool) (handle : HandleType) (s : FrameBuffer) :
    Except Fault (HandleType × FrameBuffer) :=
  if (s.m_colorbuffers handle).isSome then .error .abort
  else if s.m_buffers handle then .error .abort
  else if isCreated then
    .ok (handle, { s with m_buffers := Function.update s.m_buffers handle true })
  else .ok (0, s)

def createBuffer (isCreated : Bool) (s : FrameBuffer) : Except Fault (HandleType × FrameBuffer) :=
  match s.genHandle_locked with
  | .error fault => .error fault
  | .ok (handle, s) => s.createBufferWithHandleLocked isCreated handle

def setInfo (thread : ThreadId) (info : RenderThreadInfo) (s : FrameBuffer) : FrameBuffer :=
  { s with tInfo := Function.update s.tInfo thread info }

/-- A new context in the map and in the set of its owner, the process or else the thread. -/
def addContext (thread : ThreadId) (ret : HandleType) (s : FrameBuffer) : FrameBuffer :=
  let s := { s with m_contexts := Function.update s.m_contexts ret true }
  let tinfo := s.tInfo thread
  if tinfo.m_puid ≠ 0 then
    { s with
      m_procOwnedRenderContext := Function.update s.m_procOwnedRenderContext tinfo.m_puid
        ((s.m_procOwnedRenderContext tinfo.m_puid).insert ret) }
  else s.setInfo thread { tinfo with m_contextSet := tinfo.m_contextSet.insert ret }

def createRenderContext (thread : ThreadId) (hasConfig isCreated : Bool) (p_share : HandleType)
    (s : FrameBuffer) : Except Fault (HandleType × FrameBuffer) :=
  if hasConfig = false then .ok (0, s)
  else if p_share ≠ 0 ∧ s.m_contexts p_share = false then .ok (0, s)
  else
    match s.genHandle_locked with
    | .error fault => .error fault
    | .ok (ret, s) => if isCreated then .ok (ret, s.addContext thread ret) else .ok (0, s)

/-- A new window surface with nothing attached, likewise. -/
def addWindow (thread : ThreadId) (ret : HandleType) (s : FrameBuffer) : FrameBuffer :=
  let s := { s with m_windows := Function.update s.m_windows ret (some ⟨0, []⟩) }
  let tInfo := s.tInfo thread
  if tInfo.m_puid ≠ 0 then
    { s with
      m_procOwnedWindowSurfaces := Function.update s.m_procOwnedWindowSurfaces tInfo.m_puid
        ((s.m_procOwnedWindowSurfaces tInfo.m_puid).insert ret) }
  else s.setInfo thread { tInfo with m_windowSet := tInfo.m_windowSet.insert ret }

def createWindowSurface (thread : ThreadId) (hasConfig isCreated : Bool) (s : FrameBuffer) :
    Except Fault (HandleType × FrameBuffer) :=
  if hasConfig = false then .ok (0, s)
  else
    match s.genHandle_locked with
    | .error fault => .error fault
    | .ok (ret, s) => if isCreated then .ok (ret, s.addWindow thread ret) else .ok (ret, s)

/-! ## Color buffers -/

def openColorBuffer (host : Host) (thread : ThreadId) (handle : HandleType) (s : FrameBuffer) : ℤ × FrameBuffer :=
  if host.m_refCountPipeEnabled then (0, s)
  else
    match s.m_colorbuffers handle with
    | none => (-1, s)
    | some ref =>
      let s := { s with colorBuffers := s.colorBuffers.openRef handle ref }
      let puid := (s.tInfo thread).m_puid
      if puid ≠ 0 then
        (0, { s with
          m_procOwnedColorBuffers := Function.update s.m_procOwnedColorBuffers puid
            (handle :: s.m_procOwnedColorBuffers puid) })
      else (0, s)

def closeColorBuffer (host : Host) (thread : ThreadId) (handle : HandleType) (s : FrameBuffer) : FrameBuffer :=
  if host.m_refCountPipeEnabled then s
  else
    let puid := (s.tInfo thread).m_puid
    if puid ≠ 0 then
      if handle ∈ s.m_procOwnedColorBuffers puid then
        { s with
          m_procOwnedColorBuffers := Function.update s.m_procOwnedColorBuffers puid
            ((s.m_procOwnedColorBuffers puid).erase handle)
          colorBuffers := (s.colorBuffers.closeColorBufferLocked host handle false).2 }
      else s
    else { s with colorBuffers := (s.colorBuffers.closeColorBufferLocked host handle false).2 }

def closeBuffer (handle : HandleType) (s : FrameBuffer) : FrameBuffer :=
  { s with m_buffers := Function.update s.m_buffers handle false }

/-- `closePthreadColorBufferLocked` for each color buffer the thread created. -/
def closePthreadAloneColorBuffer (tid : ThreadId) (s : FrameBuffer) : FrameBuffer :=
  if tid ≠ 0 then
    { s with
      colorBuffers := (s.m_pthreadOwnedColorBuffers tid).foldl (fun cbs handle ↦ cbs.erase handle) s.colorBuffers
      m_pthreadOwnedColorBuffers := Function.update s.m_pthreadOwnedColorBuffers tid [] }
  else s

def setWindowSurfaceColorBuffer (host : Host) (p_surface p_colorbuffer : HandleType)
    (s : FrameBuffer) : Except Fault (Bool × FrameBuffer) :=
  match s.m_windows p_surface with
  | none => .ok (false, s)
  | some window =>
    match s.m_colorbuffers p_colorbuffer with
    | none => .ok (false, s)
    | some ref =>
      let old := window.attached
      let attachedBuffers :=
        if host.m_refCountPipeEnabled then
          let cbs := s.colorBuffers.markOpened p_colorbuffer ref
          let cbs := if old ≠ 0 then (cbs.decColorBufferRefCountLocked old).2 else cbs
          (cbs.m_colorbuffers p_colorbuffer).map fun ref ↦
            cbs.set p_colorbuffer { ref with refcount := ref.refcount + 1 }
        else s.colorBuffers.attach host old p_colorbuffer ref
      match attachedBuffers with
      | none => .error .undefinedBehaviour
      | some cbs =>
        .ok (true, { s with
            colorBuffers := cbs
            m_windows := Function.update s.m_windows p_surface
              (some { window.ownColorBuffer p_colorbuffer with attached := p_colorbuffer }) })

/-- `isShown` stands for the checks of the display's window before the color buffer is looked up. -/
def postImpl (isShown : Bool) (handle : HandleType) (s : FrameBuffer) : Bool × FrameBuffer :=
  if isShown then
    match s.m_colorbuffers handle with
    | none => (false, s)
    | some ref => (true, { s with colorBuffers := s.colorBuffers.markOpened handle ref })
  else (false, s)

/-- Whether `mOutstandingColorBufferDestroys` took the handle; it has 1024 slots. -/
def onLastColorBufferRef (handle : HandleType) (s : FrameBuffer) : FrameBuffer :=
  if s.mOutstandingColorBufferDestroys.length < 1024 then
    { s with mOutstandingColorBufferDestroys := s.mOutstandingColorBufferDestroys ++ [handle] }
  else s

/-! ## Destruction -/

/-- Take a context out of the set of the process or thread that destroys it. -/
def disownContext (thread : ThreadId) (p_context : HandleType) (s : FrameBuffer) : FrameBuffer :=
  let tinfo := s.tInfo thread
  if tinfo.m_puid ≠ 0 then
    { s with
      m_procOwnedRenderContext := Function.update s.m_procOwnedRenderContext tinfo.m_puid
        ((s.m_procOwnedRenderContext tinfo.m_puid).erase p_context) }
  else s.setInfo thread { tinfo with m_contextSet := tinfo.m_contextSet.erase p_context }

def DestroyRenderContext (thread : ThreadId) (p_context : HandleType) (s : FrameBuffer) : FrameBuffer :=
  let s := s.sweepColorBuffersLocked
  { s with m_contexts := Function.update s.m_contexts p_context false }.disownContext thread p_context

/-- Drop the references of a window: to its color buffer, and once more for every color
buffer that was ever attached to it. -/
def releaseWindow (host : Host) (window : Window) (cbs : ColorBuffers) : ColorBuffers :=
  if host.m_refCountPipeEnabled then (cbs.decColorBufferRefCountLocked window.attached).2
  else closeAll host window.mColorBuffers (cbs.closeColorBufferLocked host window.attached false).2

/-- Take a window surface out of the set of the process or thread that destroys it. -/
def disownWindow (thread : ThreadId) (p_surface : HandleType) (s : FrameBuffer) : FrameBuffer :=
  let tinfo := s.tInfo thread
  if tinfo.m_puid ≠ 0 then
    { s with
      m_procOwnedWindowSurfaces := Function.update s.m_procOwnedWindowSurfaces tinfo.m_puid
        ((s.m_procOwnedWindowSurfaces tinfo.m_puid).erase p_surface) }
  else s.setInfo thread { tinfo with m_windowSet := tinfo.m_windowSet.erase p_surface }

def DestroyWindowSurface (host : Host) (thread : ThreadId) (p_surface : HandleType) (s : FrameBuffer) : FrameBuffer :=
  if s.m_shuttingDown then s
  else
    match s.m_windows p_surface with
    | none => s
    | some window =>
      { s with
        colorBuffers := releaseWindow host window s.colorBuffers
        m_windows := Function.update s.m_windows p_surface none }.disownWindow thread p_surface

def drainRenderContext (thread : ThreadId) (s : FrameBuffer) : FrameBuffer :=
  if s.m_shuttingDown then s
  else
    let tinfo := s.tInfo thread
    { s with
      m_contexts := tinfo.m_contextSet.foldl
        (fun contexts handle ↦ Function.update contexts handle false) s.m_contexts }.setInfo thread
      { tinfo with m_contextSet := [] }

/-- One turn of the loop of `drainWindowSurface`: a surface with nothing attached is left alone. -/
def drainWindow (host : Host) (s : FrameBuffer) (winHandle : HandleType) : FrameBuffer :=
  match s.m_windows winHandle with
  | none => s
  | some window =>
    if window.attached ≠ 0 then
      { s with
        colorBuffers := releaseWindow host window s.colorBuffers
        m_windows := Function.update s.m_windows winHandle none }
    else s

def drainWindowSurface (host : Host) (thread : ThreadId) (order : List HandleType) (s : FrameBuffer) : FrameBuffer :=
  if s.m_shuttingDown then s
  else (order.foldl (drainWindow host) s).setInfo thread { s.tInfo thread with m_windowSet := [] }

/-- One turn of the loop over a process's windows, which looks each of them up unchecked. -/
def cleanupWindow (host : Host) (s : FrameBuffer) (whndl : HandleType) : Except Fault FrameBuffer :=
  match s.m_windows whndl with
  | none => .error .undefinedBehaviour
  | some window =>
    .ok { s with
      colorBuffers :=
        if host.m_refCountPipeEnabled then
          (s.colorBuffers.decColorBufferRefCountLocked window.attached).2
        else (s.colorBuffers.closeColorBufferLocked host window.attached false).2
      m_windows := Function.update s.m_windows whndl none }

/-- The loop over a process's windows. -/
def cleanupWindows (host : Host) : List HandleType → FrameBuffer → Except Fault FrameBuffer
  | [], s => .ok s
  | whndl :: order, s =>
    match s.cleanupWindow host whndl with
    | .error fault => .error fault
    | .ok s => cleanupWindows host order s

/-- The rest of the clean-up: color buffers as often as the process opened them, then contexts. -/
def cleanupObjects (host : Host) (puid : UInt64) (bufferOrder : List HandleType) (s : FrameBuffer) : FrameBuffer :=
  { s with
    m_procOwnedWindowSurfaces := Function.update s.m_procOwnedWindowSurfaces puid []
    colorBuffers := closeAll host bufferOrder s.colorBuffers
    m_procOwnedColorBuffers := Function.update s.m_procOwnedColorBuffers puid []
    m_contexts := (s.m_procOwnedRenderContext puid).foldl
      (fun contexts ctx ↦ Function.update contexts ctx false) s.m_contexts
    m_procOwnedRenderContext := Function.update s.m_procOwnedRenderContext puid [] }

def cleanupProcGLObjects (host : Host) (puid : UInt64) (windowOrder bufferOrder : List HandleType)
    (s : FrameBuffer) : Except Fault FrameBuffer :=
  match s.cleanupWindows host windowOrder with
  | .error fault => .error fault
  | .ok s => .ok (s.cleanupObjects host puid bufferOrder)

end FrameBuffer

/-! ## Steps -/

inductive Event where
  | rcSetPuid (thread : ThreadId) (puid : UInt64)
  | setShuttingDown
  | createRenderContext (thread : ThreadId) (hasConfig isCreated : Bool) (share : HandleType)
  | createWindowSurface (thread : ThreadId) (hasConfig isCreated : Bool)
  | createColorBuffer (thread : ThreadId) (isCreated : Bool)
  | createColorBufferWithHandle (thread : ThreadId) (isCreated : Bool) (handle : HandleType)
  | createBuffer (isCreated : Bool)
  | openColorBuffer (thread : ThreadId) (handle : HandleType)
  | closeColorBuffer (thread : ThreadId) (handle : HandleType)
  | closeBuffer (handle : HandleType)
  | closePthreadAloneColorBuffer (tid : ThreadId)
  | setWindowSurfaceColorBuffer (surface handle : HandleType)
  | postImpl (isShown : Bool) (handle : HandleType)
  | onLastColorBufferRef (handle : HandleType)
  | destroyRenderContext (thread : ThreadId) (handle : HandleType)
  | destroyWindowSurface (thread : ThreadId) (handle : HandleType)
  | drainRenderContext (thread : ThreadId)
  | drainWindowSurface (thread : ThreadId) (order : List HandleType)
  | cleanupProcGLObjects (puid : UInt64) (windowOrder bufferOrder : List HandleType)
deriving Repr, DecidableEq

/-- The orders given are orders of the sets that are visited, and color buffers whose last pipe
has gone are reported only where pipes count references. -/
def Event.Possible (host : Host) (s : FrameBuffer) : Event → Prop
  | .drainWindowSurface thread order => order.Perm (s.tInfo thread).m_windowSet
  | .cleanupProcGLObjects puid windowOrder bufferOrder =>
    windowOrder.Perm (s.m_procOwnedWindowSurfaces puid) ∧ bufferOrder.Perm (s.m_procOwnedColorBuffers puid)
  | .onLastColorBufferRef _ => host.m_refCountPipeEnabled = true
  | _ => True

instance decidablePossible (host : Host) (s : FrameBuffer) : ∀ event : Event, Decidable (event.Possible host s)
  | .drainWindowSurface thread order =>
    inferInstanceAs (Decidable (order.Perm (s.tInfo thread).m_windowSet))
  | .cleanupProcGLObjects puid windowOrder bufferOrder =>
    inferInstanceAs (Decidable (windowOrder.Perm (s.m_procOwnedWindowSurfaces puid) ∧
      bufferOrder.Perm (s.m_procOwnedColorBuffers puid)))
  | .onLastColorBufferRef _ => inferInstanceAs (Decidable (host.m_refCountPipeEnabled = true))
  | .rcSetPuid .. | .setShuttingDown | .createRenderContext .. | .createWindowSurface ..
  | .createColorBuffer .. | .createColorBufferWithHandle .. | .createBuffer ..
  | .openColorBuffer .. | .closeColorBuffer .. | .closeBuffer .. | .closePthreadAloneColorBuffer ..
  | .setWindowSurfaceColorBuffer .. | .postImpl .. | .destroyRenderContext ..
  | .destroyWindowSurface .. | .drainRenderContext .. => isTrue trivial

def exec (host : Host) (s : FrameBuffer) : Event → Except Fault FrameBuffer
  | .rcSetPuid thread puid => .ok (s.setInfo thread { s.tInfo thread with m_puid := puid })
  | .setShuttingDown => .ok { s with m_shuttingDown := true }
  | .createRenderContext thread hasConfig isCreated share =>
    (s.createRenderContext thread hasConfig isCreated share).map Prod.snd
  | .createWindowSurface thread hasConfig isCreated =>
    (s.createWindowSurface thread hasConfig isCreated).map Prod.snd
  | .createColorBuffer thread isCreated => (s.createColorBuffer host thread isCreated).map Prod.snd
  | .createColorBufferWithHandle thread isCreated handle =>
    s.createColorBufferWithHandle host thread isCreated handle
  | .createBuffer isCreated => (s.createBuffer isCreated).map Prod.snd
  | .openColorBuffer thread handle => .ok (s.openColorBuffer host thread handle).2
  | .closeColorBuffer thread handle => .ok (s.closeColorBuffer host thread handle)
  | .closeBuffer handle => .ok (s.closeBuffer handle)
  | .closePthreadAloneColorBuffer tid => .ok (s.closePthreadAloneColorBuffer tid)
  | .setWindowSurfaceColorBuffer surface handle =>
    (s.setWindowSurfaceColorBuffer host surface handle).map Prod.snd
  | .postImpl isShown handle => .ok (s.postImpl isShown handle).2
  | .onLastColorBufferRef handle => .ok (s.onLastColorBufferRef handle)
  | .destroyRenderContext thread handle => .ok (s.DestroyRenderContext thread handle)
  | .destroyWindowSurface thread handle => .ok (s.DestroyWindowSurface host thread handle)
  | .drainRenderContext thread => .ok (s.drainRenderContext thread)
  | .drainWindowSurface thread order => .ok (s.drainWindowSurface host thread order)
  | .cleanupProcGLObjects puid windowOrder bufferOrder =>
    s.cleanupProcGLObjects host puid windowOrder bufferOrder

/-- The state after an operation that returns. -/
def step (host : Host) (event : Event) (s : FrameBuffer) : Option FrameBuffer :=
  if event.Possible host s then (exec host s event).toOption else none

/-! ## What an operation that returned has done -/

section Inversion

variable {host : Host} {s s' : FrameBuffer} {thread : ThreadId} {isCreated : Bool} {handle ret : HandleType}

theorem exec_of_step {event : Event} (h : step host event s = some s') :
    event.Possible host s ∧ exec host s event = .ok s' := by
  unfold step at h
  split_ifs at h with hpossible
  refine ⟨hpossible, ?_⟩
  cases hexec : exec host s event with
  | error fault => simp [hexec, Except.toOption] at h
  | ok result => simpa [hexec, Except.toOption] using h

theorem map_snd_eq_ok {Value : Type} {result : Except Fault (Value × FrameBuffer)}
    (h : result.map Prod.snd = .ok s) : ∃ value, result = .ok (value, s) := by
  cases result with
  | error fault => cases h
  | ok pair => exact ⟨pair.1, congrArg Except.ok (Prod.ext rfl (Except.ok.inj h))⟩

theorem state_eq_of_ok {Value : Type} {value value' : Value}
    (h : Except.ok (ε := Fault) (value, s) = .ok (value', s')) : s' = s :=
  (Prod.mk.inj (Except.ok.inj h)).2.symm

theorem createRenderContext_cases {hasConfig : Bool} {share : HandleType}
    (h : s.createRenderContext thread hasConfig isCreated share = .ok (ret, s')) :
    s' = s ∨ ∃ id generated, s.genHandle_locked = .ok (id, generated) ∧
      (s' = generated ∨ s' = generated.addContext thread id) := by
  unfold FrameBuffer.createRenderContext at h
  split at h
  · exact .inl (state_eq_of_ok h)
  split at h
  · exact .inl (state_eq_of_ok h)
  split at h
  · cases h
  next id generated hgen =>
  refine .inr ⟨id, generated, hgen, ?_⟩
  split at h
  · exact .inr (state_eq_of_ok h)
  · exact .inl (state_eq_of_ok h)

theorem createWindowSurface_cases {hasConfig : Bool}
    (h : s.createWindowSurface thread hasConfig isCreated = .ok (ret, s')) :
    s' = s ∨ ∃ id generated, s.genHandle_locked = .ok (id, generated) ∧
      (s' = generated ∨ s' = generated.addWindow thread id) := by
  unfold FrameBuffer.createWindowSurface at h
  split at h
  · exact .inl (state_eq_of_ok h)
  split at h
  · cases h
  next id generated hgen =>
  refine .inr ⟨id, generated, hgen, ?_⟩
  split at h
  · exact .inr (state_eq_of_ok h)
  · exact .inl (state_eq_of_ok h)

/-- A new color buffer under a handle that no color buffer has. -/
theorem createColorBufferWithHandleLocked_cases
    (h : s.createColorBufferWithHandleLocked host thread isCreated handle = .ok (ret, s')) :
    s' = s.sweepColorBuffersLocked ∨ isCreated = true ∧ s.sweepColorBuffersLocked.m_colorbuffers handle = none ∧
        s' = { s.sweepColorBuffersLocked with
          colorBuffers := s.sweepColorBuffersLocked.colorBuffers.set handle created }.ownNewColorBuffer
            host thread handle := by
  unfold FrameBuffer.createColorBufferWithHandleLocked at h
  simp only at h
  split_ifs at h with hcreated hcollision
  · refine .inr ⟨hcreated, ?_, state_eq_of_ok h⟩
    simpa using hcollision
  · exact .inl (state_eq_of_ok h)

theorem createColorBufferWithHandle_cases (h : s.createColorBufferWithHandle host thread isCreated handle = .ok s') :
    s.m_colorbuffers handle = none ∧
      ∃ ret, s.createColorBufferWithHandleLocked host thread isCreated handle = .ok (ret, s') := by
  unfold FrameBuffer.createColorBufferWithHandle at h
  split_ifs at h with hcollision
  exact ⟨by simpa using hcollision, map_snd_eq_ok h⟩

theorem createColorBuffer_cases (h : s.createColorBuffer host thread isCreated = .ok (ret, s')) :
    ∃ id generated, s.sweepColorBuffersLocked.genHandle_locked = .ok (id, generated) ∧
      generated.createColorBufferWithHandleLocked host thread isCreated id = .ok (ret, s') := by
  unfold FrameBuffer.createColorBuffer at h
  split at h
  · cases h
  · next id generated hgen => exact ⟨id, generated, hgen, h⟩

theorem createBuffer_cases (h : s.createBuffer isCreated = .ok (ret, s')) :
    ∃ id generated, s.genHandle_locked = .ok (id, generated) ∧ (s' = generated ∨
        s' = { generated with m_buffers := Function.update generated.m_buffers id true }) := by
  unfold FrameBuffer.createBuffer at h
  split at h
  · cases h
  next id generated hgen =>
  refine ⟨id, generated, hgen, ?_⟩
  unfold FrameBuffer.createBufferWithHandleLocked at h
  split_ifs at h
  · exact .inr (state_eq_of_ok h)
  · exact .inl (state_eq_of_ok h)

/-- Without pipes counting references, a call that returns true has attached a color buffer. -/
theorem setWindowSurfaceColorBuffer_cases {surface : HandleType} {result : Bool}
    (h : s.setWindowSurfaceColorBuffer host surface handle = .ok (result, s')) :
    s' = s ∨ ∃ window ref cbs, s.m_windows surface = some window ∧ s.m_colorbuffers handle = some ref ∧
      (host.m_refCountPipeEnabled = false → s.colorBuffers.attach host window.attached handle ref = some cbs) ∧
      LiveSubset s.colorBuffers cbs ∧
      s' = { s with
        colorBuffers := cbs
        m_windows := Function.update s.m_windows surface
          (some { window.ownColorBuffer handle with attached := handle }) } := by
  unfold FrameBuffer.setWindowSurfaceColorBuffer at h
  cases hwindow : s.m_windows surface with
  | none =>
    simp only [hwindow] at h
    exact .inl (state_eq_of_ok h)
  | some window =>
    cases hlive : s.m_colorbuffers handle with
    | none =>
      simp only [hwindow, hlive] at h
      exact .inl (state_eq_of_ok h)
    | some ref =>
      simp only [hwindow, hlive] at h
      split at h
      · cases h
      next cbs hattached =>
      have hopened := liveSubset_markOpened hlive ref
      refine .inr ⟨window, ref, cbs, rfl, rfl, fun hpipe ↦ ?_, ?_, state_eq_of_ok h⟩
      · simpa [hpipe] using hattached
      split_ifs at hattached
      · exact hopened.trans ((liveSubset_dec window.attached _).trans (liveSubset_increment hattached))
      · exact hopened.trans (liveSubset_increment hattached)
      · exact liveSubset_attach hlive hattached

theorem cleanupWindow_cases (h : s.cleanupWindow host handle = .ok s') : ∃ window, s.m_windows handle = some window ∧
      s' = { s with
        colorBuffers :=
          if host.m_refCountPipeEnabled then
            (s.colorBuffers.decColorBufferRefCountLocked window.attached).2
          else (s.colorBuffers.closeColorBufferLocked host window.attached false).2
        m_windows := Function.update s.m_windows handle none } := by
  unfold FrameBuffer.cleanupWindow at h
  split at h
  · cases h
  · next window hwindow => exact ⟨window, hwindow, (Except.ok.inj h).symm⟩

theorem cleanupWindows_cases {order : List HandleType} (h : s.cleanupWindows host (handle :: order) = .ok s') :
    ∃ cleaned, s.cleanupWindow host handle = .ok cleaned ∧ cleaned.cleanupWindows host order = .ok s' := by
  unfold FrameBuffer.cleanupWindows at h
  split at h
  · cases h
  · next cleaned hcleaned => exact ⟨cleaned, hcleaned, h⟩

theorem cleanupProcGLObjects_cases {puid : UInt64} {windowOrder bufferOrder : List HandleType}
    (h : s.cleanupProcGLObjects host puid windowOrder bufferOrder = .ok s') :
    ∃ cleaned, s.cleanupWindows host windowOrder = .ok cleaned ∧
      s' = cleaned.cleanupObjects host puid bufferOrder := by
  unfold FrameBuffer.cleanupProcGLObjects at h
  split at h
  · cases h
  · next cleaned hcleaned => exact ⟨cleaned, hcleaned, (Except.ok.inj h).symm⟩

end Inversion

end FdeEmugl.Fb

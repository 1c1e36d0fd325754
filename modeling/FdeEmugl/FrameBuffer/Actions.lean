import FdeEmugl.FrameBuffer.Operations
import FdeEmugl.Library.Runs

/-!
# Operations as actions on color buffers

Seen from the color buffers, an operation is a short list of actions. Where pipes do not
count references, running the actions of an operation gives the color buffers that the
operation leaves behind, so an invariant of the actions is one of the operations.
-/

namespace FdeEmugl.Fb

open Runs ColorBuffers
open FrameBuffer

inductive Action where
  | insert (handle : HandleType)
  | reopen (handle : HandleType)
  | post (handle : HandleType)
  | attach (old handle : HandleType)
  /-- The close of what is attached to a window surface that goes away. -/
  | detach (handle : HandleType)
  | close (handle : HandleType)
  | erase (handle : HandleType)
deriving Repr, DecidableEq

namespace ColorBuffers

/-- Nothing happens to a color buffer that is not found. -/
def perform (host : Host) : Action → ColorBuffers → Option ColorBuffers
  | .insert handle, s => if (s.m_colorbuffers handle).isSome then none else some (s.set handle created)
  | .reopen handle, s => some ((s.m_colorbuffers handle).elim s fun ref ↦ s.openRef handle ref)
  | .post handle, s => some ((s.m_colorbuffers handle).elim s fun ref ↦ s.markOpened handle ref)
  | .attach old handle, s => (s.m_colorbuffers handle).elim (some s) fun ref ↦ s.attach host old handle ref
  | .detach handle, s => some (s.closeColorBufferLocked host handle false).2
  | .close handle, s => some (s.closeColorBufferLocked host handle false).2
  | .erase handle, s => some (s.erase handle)

section Inversion

variable {host : Host} {s s' : ColorBuffers} {old handle : HandleType}

theorem perform_insert (h : perform host (.insert handle) s = some s') :
    s.m_colorbuffers handle = none ∧ s' = s.set handle created := by
  simp only [perform] at h
  split_ifs at h with hlive
  exact ⟨by simpa using hlive, (Option.some.inj h).symm⟩

theorem perform_reopen (h : perform host (.reopen handle) s = some s') : (s.m_colorbuffers handle = none ∧ s' = s) ∨
      ∃ ref, s.m_colorbuffers handle = some ref ∧ s' = s.openRef handle ref := by
  rw [← Option.some.inj h]
  cases s.m_colorbuffers handle with
  | none => exact .inl ⟨rfl, rfl⟩
  | some ref => exact .inr ⟨ref, rfl, rfl⟩

theorem perform_post (h : perform host (.post handle) s = some s') : (s.m_colorbuffers handle = none ∧ s' = s) ∨
      ∃ ref, s.m_colorbuffers handle = some ref ∧ s' = s.markOpened handle ref := by
  rw [← Option.some.inj h]
  cases s.m_colorbuffers handle with
  | none => exact .inl ⟨rfl, rfl⟩
  | some ref => exact .inr ⟨ref, rfl, rfl⟩

theorem perform_attach (h : perform host (.attach old handle) s = some s') :
    (s.m_colorbuffers handle = none ∧ s' = s) ∨
      ∃ ref, s.m_colorbuffers handle = some ref ∧ s.attach host old handle ref = some s' := by
  simp only [perform] at h
  cases hlive : s.m_colorbuffers handle with
  | none =>
    rw [hlive] at h
    exact .inl ⟨rfl, (Option.some.inj h).symm⟩
  | some ref =>
    rw [hlive] at h
    exact .inr ⟨ref, rfl, h⟩

end Inversion

end ColorBuffers

/-- The closes of a window surface that is destroyed or drained. -/
def Window.releases (window : Window) : List Action := .detach window.attached :: window.mColorBuffers.map .close

/-- The closes of `drainWindowSurface`. -/
def drainActions (windows : HandleType → Option Window) : List HandleType → List Action
  | [] => []
  | winHandle :: order =>
    match windows winHandle with
    | none => drainActions windows order
    | some window =>
      if window.attached ≠ 0 then
        window.releases ++ drainActions (Function.update windows winHandle none) order
      else drainActions windows order

/-- The closes of the window surfaces in `cleanupProcGLObjects`. -/
def cleanupActions (windows : HandleType → Option Window) : List HandleType → List Action
  | [] => []
  | whndl :: order =>
    match windows whndl with
    | none => []
    | some window => .detach window.attached :: cleanupActions (Function.update windows whndl none) order

/-- What an operation does to the color buffers. -/
def actions (s : FrameBuffer) : Event → List Action
  | .createColorBuffer _ isCreated =>
    match s.genHandle_locked with
    | .error _ => []
    | .ok (handle, _) => if isCreated then [.insert handle] else []
  | .createColorBufferWithHandle _ isCreated handle => if isCreated then [.insert handle] else []
  | .openColorBuffer _ handle => [.reopen handle]
  | .closeColorBuffer thread handle =>
    if (s.tInfo thread).m_puid ≠ 0 ∧ handle ∉ s.m_procOwnedColorBuffers (s.tInfo thread).m_puid then []
    else [.close handle]
  | .closePthreadAloneColorBuffer tid =>
    if tid ≠ 0 then (s.m_pthreadOwnedColorBuffers tid).map .erase else []
  | .setWindowSurfaceColorBuffer surface handle =>
    (s.m_windows surface).elim [] fun window ↦ [.attach window.attached handle]
  | .postImpl isShown handle => if isShown then [.post handle] else []
  | .destroyWindowSurface _ handle =>
    if s.m_shuttingDown then [] else (s.m_windows handle).elim [] Window.releases
  | .drainWindowSurface _ order => if s.m_shuttingDown then [] else drainActions s.m_windows order
  | .cleanupProcGLObjects _ windowOrder bufferOrder =>
    cleanupActions s.m_windows windowOrder ++ bufferOrder.map .close
  | _ => []

section Actions

variable {s : FrameBuffer} {thread tid : ThreadId} {handle surface : HandleType} {order : List HandleType}

theorem actions_createColorBuffer {isCreated : Bool} : actions s (.createColorBuffer thread isCreated) =
    match s.genHandle_locked with
    | .error _ => []
    | .ok (handle, _) => if isCreated then [.insert handle] else [] := rfl

theorem actions_closeColorBuffer : actions s (.closeColorBuffer thread handle) =
    if (s.tInfo thread).m_puid ≠ 0 ∧ handle ∉ s.m_procOwnedColorBuffers (s.tInfo thread).m_puid then []
    else [.close handle] := rfl

theorem actions_closePthreadAlone : actions s (.closePthreadAloneColorBuffer tid) =
    if tid ≠ 0 then (s.m_pthreadOwnedColorBuffers tid).map .erase else [] := rfl

theorem actions_setWindowSurfaceColorBuffer : actions s (.setWindowSurfaceColorBuffer surface handle) =
    (s.m_windows surface).elim [] fun window ↦ [.attach window.attached handle] := rfl

theorem actions_postImpl {isShown : Bool} :
    actions s (.postImpl isShown handle) = if isShown then [.post handle] else [] := rfl

theorem actions_destroyWindowSurface : actions s (.destroyWindowSurface thread handle) =
    if s.m_shuttingDown then [] else (s.m_windows handle).elim [] Window.releases := rfl

theorem actions_drainWindowSurface : actions s (.drainWindowSurface thread order) =
    if s.m_shuttingDown then [] else drainActions s.m_windows order := rfl

theorem actions_cleanupProcGLObjects {puid : UInt64} {bufferOrder : List HandleType} :
    actions s (.cleanupProcGLObjects puid order bufferOrder) =
      cleanupActions s.m_windows order ++ bufferOrder.map .close := rfl

end Actions

section Correct

variable {host : Host} {s s' : FrameBuffer} {thread : ThreadId} {handle : HandleType}

variable {order : List HandleType} {isCreated : Bool} {ret : HandleType}

theorem run_close (handles : List HandleType) (cbs : ColorBuffers) :
    run (perform host) cbs (handles.map .close) = some (closeAll host handles cbs) := by
  induction handles generalizing cbs with
  | nil => rfl
  | cons handle handles ih => exact ih (cbs.closeColorBufferLocked host handle false).2

theorem run_erase (handles : List HandleType) (cbs : ColorBuffers) : run (perform host) cbs (handles.map .erase) =
      some (handles.foldl (fun cbs handle ↦ cbs.erase handle) cbs) := by
  induction handles generalizing cbs with
  | nil => rfl
  | cons handle handles ih => exact ih (cbs.erase handle)

section

variable (hpipe : host.m_refCountPipeEnabled = false)
include hpipe

theorem run_releases (window : Window) (cbs : ColorBuffers) :
    run (perform host) cbs window.releases = some (releaseWindow host window cbs) := by
  unfold releaseWindow
  rw [hpipe]
  exact run_close window.mColorBuffers (cbs.closeColorBufferLocked host window.attached false).2

theorem run_drainActions (order : List HandleType) (s : FrameBuffer) :
    run (perform host) s.colorBuffers (drainActions s.m_windows order) =
      some (order.foldl (drainWindow host) s).colorBuffers := by
  induction order generalizing s with
  | nil => rfl
  | cons winHandle order ih =>
    rw [List.foldl_cons, ← ih]
    cases hwindow : s.m_windows winHandle with
    | none => simp only [drainActions, drainWindow, hwindow]
    | some window =>
      simp only [drainActions, drainWindow, hwindow]
      split_ifs
      · rw [run_append, run_releases hpipe, Option.bind_some]
      · rfl

theorem run_cleanupActions (h : s.cleanupWindows host order = .ok s') :
    run (perform host) s.colorBuffers (cleanupActions s.m_windows order) = some s'.colorBuffers := by
  induction order generalizing s with
  | nil => exact congrArg (fun s ↦ some s.colorBuffers) (Except.ok.inj h)
  | cons whndl order ih =>
    obtain ⟨cleaned, hcleaned, hrest⟩ := cleanupWindows_cases h
    obtain ⟨window, hwindow, rfl⟩ := cleanupWindow_cases hcleaned
    simp only [cleanupActions, hwindow, run_cons, perform, Option.bind_some, ← ih hrest, hpipe,
      Bool.false_eq_true, if_false]

end

/-- Nothing waits for a sweep, as is the case where pipes do not count references. -/
theorem sweep_eq_self (h : s.mOutstandingColorBufferDestroys = []) : s.sweepColorBuffersLocked = s := by
  unfold sweepColorBuffersLocked
  rw [h, List.foldl_nil, ← h]

/-- The actions take the color buffers of the one state to those of the other, and nothing comes to
wait for a sweep. -/
def Performs (host : Host) (s s' : FrameBuffer) (performed : List Action) : Prop :=
  run (perform host) s.colorBuffers performed = some s'.colorBuffers ∧
    s'.mOutstandingColorBufferDestroys = s.mOutstandingColorBufferDestroys

theorem performs_nil (hcbs : s'.colorBuffers = s.colorBuffers)
    (hnone : s'.mOutstandingColorBufferDestroys = s.mOutstandingColorBufferDestroys) :
    Performs host s s' [] :=
  ⟨congrArg some hcbs.symm, hnone⟩

theorem performs_genHandle (host : Host) (h : s.genHandle_locked = .ok (handle, s')) : Performs host s s' [] := by
  unfold genHandle_locked at h
  split at h
  · cases h
  · rw [state_eq_of_ok h]
    exact performs_nil rfl rfl

theorem performs_createRenderContext {hasConfig : Bool} {share : HandleType}
    (h : s.createRenderContext thread hasConfig isCreated share = .ok (ret, s')) : Performs host s s' [] := by
  obtain rfl | ⟨id, generated, hgen, hstate⟩ := createRenderContext_cases h
  · exact performs_nil rfl rfl
  have hgenerated := performs_genHandle host hgen
  obtain rfl | rfl := hstate
  · exact hgenerated
  · unfold addContext
    simp only
    split_ifs <;> exact hgenerated

theorem performs_createWindowSurface {hasConfig : Bool}
    (h : s.createWindowSurface thread hasConfig isCreated = .ok (ret, s')) : Performs host s s' [] := by
  obtain rfl | ⟨id, generated, hgen, hstate⟩ := createWindowSurface_cases h
  · exact performs_nil rfl rfl
  have hgenerated := performs_genHandle host hgen
  obtain rfl | rfl := hstate
  · exact hgenerated
  · unfold addWindow
    simp only
    split_ifs <;> exact hgenerated

theorem performs_createLocked (hnone : s.mOutstandingColorBufferDestroys = [])
    (h : s.createColorBufferWithHandleLocked host thread isCreated handle = .ok (ret, s')) :
    Performs host s s' (if isCreated then [.insert handle] else []) := by
  unfold createColorBufferWithHandleLocked at h
  rw [sweep_eq_self hnone] at h
  simp only at h
  split_ifs at h with hcreated hcollision
  · have hfree : ¬ (s.colorBuffers.m_colorbuffers handle).isSome = true := hcollision
    rw [state_eq_of_ok h, if_pos hcreated, Performs, run_cons, perform, if_neg hfree]
    unfold ownNewColorBuffer
    simp only
    split_ifs <;> exact ⟨rfl, rfl⟩
  · rw [state_eq_of_ok h, if_neg hcreated]
    exact performs_nil rfl rfl

theorem performs_createColorBuffer (hnone : s.mOutstandingColorBufferDestroys = [])
    (h : s.createColorBuffer host thread isCreated = .ok (ret, s')) :
    Performs host s s' (actions s (.createColorBuffer thread isCreated)) := by
  obtain ⟨id, generated, hgen, hlocked⟩ := createColorBuffer_cases h
  rw [sweep_eq_self hnone] at hgen
  obtain ⟨hcbs, hnone'⟩ := performs_genHandle host hgen
  simp only [actions_createColorBuffer, hgen]
  have hperformed := performs_createLocked (hnone'.trans hnone) hlocked
  rw [Performs, hnone', ← Option.some.inj hcbs] at hperformed
  exact hperformed

theorem performs_createBuffer (h : s.createBuffer isCreated = .ok (ret, s')) : Performs host s s' [] := by
  obtain ⟨id, generated, hgen, hstate⟩ := createBuffer_cases h
  have hgenerated := performs_genHandle host hgen
  obtain rfl | rfl := hstate <;> exact hgenerated

theorem performs_openColorBuffer (hpipe : host.m_refCountPipeEnabled = false) :
    Performs host s (s.openColorBuffer host thread handle).2 [.reopen handle] := by
  simp only [Performs, run_cons, perform, FrameBuffer.openColorBuffer, FrameBuffer.m_colorbuffers, hpipe,
    Bool.false_eq_true, if_false]
  cases s.colorBuffers.m_colorbuffers handle with
  | none => exact ⟨rfl, rfl⟩
  | some ref =>
    simp only
    split_ifs <;> exact ⟨rfl, rfl⟩

theorem performs_closeColorBuffer (hpipe : host.m_refCountPipeEnabled = false) :
    Performs host s (s.closeColorBuffer host thread handle) (actions s (.closeColorBuffer thread handle)) := by
  simp only [Performs, actions_closeColorBuffer, FrameBuffer.closeColorBuffer, hpipe, Bool.false_eq_true, if_false]
  by_cases hpuid : (s.tInfo thread).m_puid = 0
  · simp [hpuid, perform]
  · by_cases hmem : handle ∈ s.m_procOwnedColorBuffers (s.tInfo thread).m_puid
    · simp [hpuid, hmem, perform]
    · simp [hpuid, hmem]

theorem performs_closePthreadAlone : Performs host s (s.closePthreadAloneColorBuffer thread)
    (actions s (.closePthreadAloneColorBuffer thread)) := by
  simp only [actions_closePthreadAlone, FrameBuffer.closePthreadAloneColorBuffer]
  split_ifs
  · exact ⟨run_erase _ _, rfl⟩
  · exact performs_nil rfl rfl

theorem performs_setWindowSurfaceColorBuffer (hpipe : host.m_refCountPipeEnabled = false)
    {surface : HandleType} {result : Bool}
    (h : s.setWindowSurfaceColorBuffer host surface handle = .ok (result, s')) :
    Performs host s s' (actions s (.setWindowSurfaceColorBuffer surface handle)) := by
  unfold FrameBuffer.setWindowSurfaceColorBuffer FrameBuffer.m_colorbuffers at h
  cases hwindow : s.m_windows surface with
  | none =>
    simp only [hwindow] at h
    simp only [actions_setWindowSurfaceColorBuffer, hwindow, Option.elim_none, state_eq_of_ok h]
    exact performs_nil rfl rfl
  | some window =>
    simp only [actions_setWindowSurfaceColorBuffer, hwindow, Option.elim_some, Performs, run_cons, perform, run_nil]
    cases hlive : s.colorBuffers.m_colorbuffers handle with
    | none =>
      simp only [hwindow, hlive] at h
      rw [state_eq_of_ok h]
      exact ⟨rfl, rfl⟩
    | some ref =>
      simp only [hwindow, hlive, hpipe, Bool.false_eq_true, if_false] at h
      split at h
      · cases h
      next cbs hattached =>
      rw [state_eq_of_ok h, Option.elim_some, hattached]
      exact ⟨rfl, rfl⟩

theorem performs_postImpl {isShown : Bool} :
    Performs host s (s.postImpl isShown handle).2 (actions s (.postImpl isShown handle)) := by
  simp only [actions_postImpl, FrameBuffer.postImpl, FrameBuffer.m_colorbuffers]
  split_ifs
  · simp only [Performs, run_cons, perform]
    cases s.colorBuffers.m_colorbuffers handle <;> exact ⟨rfl, rfl⟩
  · exact performs_nil rfl rfl

theorem performs_DestroyRenderContext (hnone : s.mOutstandingColorBufferDestroys = []) :
    Performs host s (s.DestroyRenderContext thread handle) [] := by
  unfold DestroyRenderContext disownContext
  rw [sweep_eq_self hnone]
  simp only
  split_ifs <;> exact performs_nil rfl rfl

theorem performs_DestroyWindowSurface (hpipe : host.m_refCountPipeEnabled = false) :
    Performs host s (s.DestroyWindowSurface host thread handle)
      (actions s (.destroyWindowSurface thread handle)) := by
  simp only [actions_destroyWindowSurface, DestroyWindowSurface]
  split_ifs
  · exact performs_nil rfl rfl
  cases s.m_windows handle with
  | none => exact performs_nil rfl rfl
  | some window =>
    have hrun := run_releases hpipe window s.colorBuffers
    simp only [disownWindow, Option.elim_some]
    split_ifs <;> exact ⟨hrun, rfl⟩

theorem outstanding_drainWindows (order : List HandleType) (s : FrameBuffer) :
    (order.foldl (drainWindow host) s).mOutstandingColorBufferDestroys =
      s.mOutstandingColorBufferDestroys := by
  induction order generalizing s with
  | nil => rfl
  | cons winHandle order ih =>
    rw [List.foldl_cons, ih]
    unfold drainWindow
    split
    · rfl
    · split_ifs <;> rfl

theorem performs_drainWindowSurface (hpipe : host.m_refCountPipeEnabled = false) :
    Performs host s (s.drainWindowSurface host thread order) (actions s (.drainWindowSurface thread order)) := by
  simp only [actions_drainWindowSurface, FrameBuffer.drainWindowSurface]
  split_ifs
  · exact performs_nil rfl rfl
  · exact ⟨run_drainActions hpipe order s, outstanding_drainWindows order s⟩

theorem outstanding_cleanupWindows (h : s.cleanupWindows host order = .ok s') :
    s'.mOutstandingColorBufferDestroys = s.mOutstandingColorBufferDestroys := by
  induction order generalizing s with
  | nil => exact Except.ok.inj h ▸ rfl
  | cons whndl order ih =>
    obtain ⟨cleaned, hcleaned, hrest⟩ := cleanupWindows_cases h
    obtain ⟨window, _, rfl⟩ := cleanupWindow_cases hcleaned
    have hkept := ih hrest
    exact hkept

theorem performs_cleanupProcGLObjects (hpipe : host.m_refCountPipeEnabled = false) {puid : UInt64}
    {windowOrder bufferOrder : List HandleType}
    (h : s.cleanupProcGLObjects host puid windowOrder bufferOrder = .ok s') :
    Performs host s s' (actions s (.cleanupProcGLObjects puid windowOrder bufferOrder)) := by
  obtain ⟨cleaned, hcleaned, rfl⟩ := cleanupProcGLObjects_cases h
  have hnone := outstanding_cleanupWindows hcleaned
  rw [Performs, actions_cleanupProcGLObjects, run_append, run_cleanupActions hpipe hcleaned, Option.bind_some, run_close]
  exact ⟨rfl, hnone⟩

/-- The actions of an operation that returns are what it has done to the color buffers. -/
theorem performs_of_step (hpipe : host.m_refCountPipeEnabled = false)
    (hnone : s.mOutstandingColorBufferDestroys = []) {event : Event} (h : step host event s = some s') :
    Performs host s s' (actions s event) := by
  obtain ⟨hpossible, hexec⟩ := exec_of_step h
  cases event with
  | rcSetPuid thread puid => exact Except.ok.inj hexec ▸ performs_nil rfl rfl
  | setShuttingDown => exact Except.ok.inj hexec ▸ performs_nil rfl rfl
  | createRenderContext thread hasConfig isCreated share =>
    obtain ⟨ret, hret⟩ := map_snd_eq_ok hexec
    exact performs_createRenderContext hret
  | createWindowSurface thread hasConfig isCreated =>
    obtain ⟨ret, hret⟩ := map_snd_eq_ok hexec
    exact performs_createWindowSurface hret
  | createColorBuffer thread isCreated =>
    obtain ⟨ret, hret⟩ := map_snd_eq_ok hexec
    exact performs_createColorBuffer hnone hret
  | createColorBufferWithHandle thread isCreated handle =>
    obtain ⟨_, ret, hret⟩ := createColorBufferWithHandle_cases hexec
    exact performs_createLocked hnone hret
  | createBuffer isCreated =>
    obtain ⟨ret, hret⟩ := map_snd_eq_ok hexec
    exact performs_createBuffer hret
  | openColorBuffer thread handle => exact Except.ok.inj hexec ▸ performs_openColorBuffer hpipe
  | closeColorBuffer thread handle => exact Except.ok.inj hexec ▸ performs_closeColorBuffer hpipe
  | closeBuffer handle => exact Except.ok.inj hexec ▸ performs_nil rfl rfl
  | closePthreadAloneColorBuffer tid => exact Except.ok.inj hexec ▸ performs_closePthreadAlone
  | setWindowSurfaceColorBuffer surface handle =>
    obtain ⟨result, hresult⟩ := map_snd_eq_ok hexec
    exact performs_setWindowSurfaceColorBuffer hpipe hresult
  | postImpl isShown handle => exact Except.ok.inj hexec ▸ performs_postImpl
  | onLastColorBufferRef handle =>
    rw [Event.Possible, hpipe] at hpossible
    cases hpossible
  | destroyRenderContext thread handle => exact Except.ok.inj hexec ▸ performs_DestroyRenderContext hnone
  | destroyWindowSurface thread handle => exact Except.ok.inj hexec ▸ performs_DestroyWindowSurface hpipe
  | drainRenderContext thread =>
    rw [← Except.ok.inj hexec]
    unfold FrameBuffer.drainRenderContext
    split_ifs <;> exact performs_nil rfl rfl
  | drainWindowSurface thread order => exact Except.ok.inj hexec ▸ performs_drainWindowSurface hpipe
  | cleanupProcGLObjects puid windowOrder bufferOrder => exact performs_cleanupProcGLObjects hpipe hexec

end Correct

/-! ## Invariants of the actions -/

section Invariants

variable {host : Host} {guard : Action → ColorBuffers → Prop}

/-- Every action of the operation meets the guard in the color buffers it finds. -/
def EachAction (host : Host) (guard : Action → ColorBuffers → Prop) (event : Event) (s : FrameBuffer) : Prop :=
  Guarded (perform host) guard s.colorBuffers (actions s event)

instance decidableEachAction [∀ action cbs, Decidable (guard action cbs)] (event : Event) (s : FrameBuffer) :
    Decidable (EachAction host guard event s) :=
  decidableGuarded (perform host) guard s.colorBuffers (actions s event)

/-- What guarded actions preserve holds of the color buffers in every run of guarded operations. -/
theorem invariant_of_eachAction {invariant : ColorBuffers → Prop} (hpipe : host.m_refCountPipeEnabled = false)
    (hperform : ∀ action cbs cbs', invariant cbs → guard action cbs →
      perform host action cbs = some cbs' → invariant cbs')
    {events : List Event} {s : FrameBuffer} (hinit : invariant .new)
    (hguard : Guarded (step host) (EachAction host guard) .new events)
    (hrun : run (step host) .new events = some s) : invariant s.colorBuffers := by
  have hboth : invariant s.colorBuffers ∧ s.mOutstandingColorBufferDestroys = [] := by
    refine invariant_of_guarded (fun s ↦ invariant s.colorBuffers ∧ s.mOutstandingColorBufferDestroys = [])
      ?_ ⟨hinit, rfl⟩ hguard hrun
    rintro event s s' ⟨hinv, hnone⟩ heach hstep
    obtain ⟨hperformed, hnone'⟩ := performs_of_step hpipe hnone hstep
    exact ⟨invariant_of_guarded invariant hperform hinv heach hperformed, hnone'.trans hnone⟩
  exact hboth.1

end Invariants

end FdeEmugl.Fb

import FdeEmugl.FrameBuffer.Handles
import FdeEmugl.Library.OwnerIndex

/-!
# Objects of a process

Window surfaces and contexts are listed under the process that created them, and
`cleanupProcGLObjects` looks every listed window surface up without a check. Destroying an
object takes it off the list of the caller's process, whichever process created it.
-/

namespace FdeEmugl.Fb

open Runs OwnerIndex ColorBuffers
open FrameBuffer
open Function (update_of_ne)

/-- What is listed under processes is there, and listed once. -/
structure Owned (s : FrameBuffer) : Prop where
  windows : Consistent (fun handle ↦ (s.m_windows handle).isSome = true) s.m_procOwnedWindowSurfaces
  contexts : Consistent (fun handle ↦ s.m_contexts handle = true) s.m_procOwnedRenderContext

section Frame

variable {s s' : FrameBuffer} {host : Host} {thread : ThreadId} {handle : HandleType}

theorem owned_new : Owned .new where
  windows := consistent_nil _
  contexts := consistent_nil _

/-- Contexts and the lists of the processes stay as they are. -/
structure KeepsIndex (s s' : FrameBuffer) : Prop where
  procWindows : s'.m_procOwnedWindowSurfaces = s.m_procOwnedWindowSurfaces
  contexts : s'.m_contexts = s.m_contexts
  procContexts : s'.m_procOwnedRenderContext = s.m_procOwnedRenderContext

theorem KeepsIndex.trans {s'' : FrameBuffer} (h : KeepsIndex s s') (h' : KeepsIndex s' s'') : KeepsIndex s s'' where
  procWindows := h'.procWindows.trans h.procWindows
  contexts := h'.contexts.trans h.contexts
  procContexts := h'.procContexts.trans h.procContexts

section

variable (h : Owned s)
include h

theorem Owned.keep (hindex : KeepsIndex s s')
    (hwindows : ∀ puid, ∀ handle ∈ s.m_procOwnedWindowSurfaces puid, (s.m_windows handle).isSome = true → (s'.m_windows handle).isSome = true) :
    Owned s' where
  windows := by
    rw [hindex.procWindows]
    exact h.windows.of_owned hwindows
  contexts := by
    rw [hindex.contexts, hindex.procContexts]
    exact h.contexts

/-- The operations on color buffers touch neither the objects nor their owners. -/
theorem Owned.frame (hindex : KeepsIndex s s') (hwindows : s'.m_windows = s.m_windows) : Owned s' :=
  h.keep hindex fun _ _ _ hlive ↦ hwindows ▸ hlive

theorem owned_genHandle (hgen : s.genHandle_locked = .ok (handle, s')) :
    Owned s' ∧ (s'.m_windows handle).isSome = false ∧ s'.m_contexts handle = false := by
  obtain ⟨htaken, rfl⟩ := genHandle_locked_ok hgen
  obtain ⟨_, hfresh⟩ := taken_eq_false.mp htaken
  exact ⟨h.frame ⟨rfl, rfl, rfl⟩ rfl, hfresh .window, hfresh .context⟩

theorem owned_ownNewColorBuffer : Owned (s.ownNewColorBuffer host thread handle) := by
  unfold ownNewColorBuffer
  simp only
  split_ifs <;> exact h.frame ⟨rfl, rfl, rfl⟩ rfl

theorem owned_createColorBufferWithHandleLocked {isCreated : Bool} {ret : HandleType}
    (hcreate : s.createColorBufferWithHandleLocked host thread isCreated handle = .ok (ret, s')) :
    Owned s' := by
  have hswept : Owned s.sweepColorBuffersLocked := h.frame ⟨rfl, rfl, rfl⟩ rfl
  obtain rfl | ⟨_, _, rfl⟩ := createColorBufferWithHandleLocked_cases hcreate
  · exact hswept
  · exact owned_ownNewColorBuffer (hswept.frame ⟨rfl, rfl, rfl⟩ rfl)

theorem owned_openColorBuffer : Owned (s.openColorBuffer host thread handle).2 := by
  unfold FrameBuffer.openColorBuffer
  split_ifs
  · exact h
  cases s.m_colorbuffers handle with
  | none => exact h
  | some ref =>
    simp only
    split_ifs <;> exact h.frame ⟨rfl, rfl, rfl⟩ rfl

theorem owned_closeColorBuffer : Owned (s.closeColorBuffer host thread handle) := by
  unfold FrameBuffer.closeColorBuffer
  simp only
  split_ifs <;> first | exact h | exact h.frame ⟨rfl, rfl, rfl⟩ rfl

theorem owned_closePthreadAlone : Owned (s.closePthreadAloneColorBuffer thread) := by
  unfold FrameBuffer.closePthreadAloneColorBuffer
  split_ifs
  · exact h.frame ⟨rfl, rfl, rfl⟩ rfl
  · exact h

theorem owned_postImpl {isShown : Bool} : Owned (s.postImpl isShown handle).2 := by
  unfold FrameBuffer.postImpl
  split_ifs
  · cases s.m_colorbuffers handle with
    | none => exact h
    | some ref => exact h.frame ⟨rfl, rfl, rfl⟩ rfl
  · exact h

theorem owned_onLastColorBufferRef : Owned (s.onLastColorBufferRef handle) := by
  unfold FrameBuffer.onLastColorBufferRef
  split_ifs
  · exact h.frame ⟨rfl, rfl, rfl⟩ rfl
  · exact h

/-- An attachment changes a window surface that is there. -/
theorem owned_setWindowSurfaceColorBuffer {surface : HandleType} {result : Bool}
    (hset : s.setWindowSurfaceColorBuffer host surface handle = .ok (result, s')) : Owned s' := by
  obtain rfl | ⟨window, ref, cbs, hwindow, _, _, _, rfl⟩ := setWindowSurfaceColorBuffer_cases hset
  · exact h
  · refine h.keep ⟨rfl, rfl, rfl⟩ fun _ other _ hlive ↦ ?_
    by_cases heq : other = surface
    · simp [heq]
    · simpa [update_of_ne heq] using hlive

end

end Frame

/-! ## Creation -/

section Creation

variable {s s' : FrameBuffer} {thread : ThreadId} {handle ret : HandleType} {hasConfig isCreated : Bool}

theorem owned_addContext (h : Owned s) (hfresh : s.m_contexts handle = false) :
    Owned (s.addContext thread handle) := by
  have hadded : ∀ other, s.m_contexts other = true → Function.update s.m_contexts handle true other = true := by
    intro other hlive
    by_cases heq : other = handle
    · simp [heq]
    · rwa [update_of_ne heq]
  unfold addContext
  simp only
  split_ifs
  · exact ⟨h.windows, h.contexts.insert (by simp [hfresh]) hadded (by simp)⟩
  · exact ⟨h.windows, h.contexts.of_owned fun _ other _ ↦ hadded other⟩

theorem owned_addWindow (h : Owned s) (hfresh : (s.m_windows handle).isSome = false) :
    Owned (s.addWindow thread handle) := by
  have hadded : ∀ other, (s.m_windows other).isSome = true →
      (Function.update s.m_windows handle (some ⟨0, []⟩) other).isSome = true := by
    intro other hlive
    by_cases heq : other = handle
    · simp [heq]
    · rwa [update_of_ne heq]
  unfold addWindow
  simp only
  split_ifs
  · exact ⟨h.windows.insert (by simp [hfresh]) hadded (by simp), h.contexts⟩
  · exact ⟨h.windows.of_owned fun _ other _ ↦ hadded other, h.contexts⟩

theorem owned_createRenderContext {share : HandleType} (h : Owned s)
    (hcreate : s.createRenderContext thread hasConfig isCreated share = .ok (ret, s')) : Owned s' := by
  obtain rfl | ⟨id, generated, hgen, hstate⟩ := createRenderContext_cases hcreate
  · exact h
  obtain ⟨hgenerated, _, hfresh⟩ := owned_genHandle h hgen
  obtain rfl | rfl := hstate
  · exact hgenerated
  · exact owned_addContext hgenerated hfresh

theorem owned_createWindowSurface (h : Owned s)
    (hcreate : s.createWindowSurface thread hasConfig isCreated = .ok (ret, s')) : Owned s' := by
  obtain rfl | ⟨id, generated, hgen, hstate⟩ := createWindowSurface_cases hcreate
  · exact h
  obtain ⟨hgenerated, hfresh, _⟩ := owned_genHandle h hgen
  obtain rfl | rfl := hstate
  · exact hgenerated
  · exact owned_addWindow hgenerated hfresh

end Creation

/-! ## Destruction -/

section Destruction

variable {s s' : FrameBuffer} {host : Host} {thread : ThreadId} {handle : HandleType}

/-- No process lists the handle, except the one the calling thread belongs to. -/
def ListedByCaller (owned : UInt64 → List HandleType) (caller : UInt64) (handle : HandleType) : Prop :=
  ∀ puid, handle ∈ owned puid → puid = caller ∧ caller ≠ 0

variable {order : List HandleType}

theorem owned_DestroyRenderContext (h : Owned s)
    (hcaller : ListedByCaller s.m_procOwnedRenderContext (s.tInfo thread).m_puid handle) :
    Owned (s.DestroyRenderContext thread handle) := by
  have hkept : ∀ other, other ≠ handle → s.m_contexts other = true →
      Function.update s.m_contexts handle false other = true := by
    intro other hne hlive
    rwa [update_of_ne hne]
  unfold DestroyRenderContext disownContext
  simp only
  split_ifs with hpuid
  · exact ⟨h.windows, h.contexts.erase (fun puid hmem ↦ (hcaller puid hmem).1) hkept⟩
  · refine ⟨h.windows, h.contexts.of_owned fun puid other hmem ↦ hkept other ?_⟩
    rintro rfl
    exact hpuid (hcaller puid hmem).2

theorem owned_DestroyWindowSurface (h : Owned s) (hcaller : s.m_shuttingDown = false →
      ListedByCaller s.m_procOwnedWindowSurfaces (s.tInfo thread).m_puid handle) :
    Owned (s.DestroyWindowSurface host thread handle) := by
  have hkept : ∀ other, other ≠ handle → (s.m_windows other).isSome = true →
      (Function.update s.m_windows handle none other).isSome = true := by
    intro other hne hlive
    rwa [update_of_ne hne]
  unfold DestroyWindowSurface
  split_ifs with hdown
  · exact h
  have hcaller := hcaller (by simpa using hdown)
  cases s.m_windows handle with
  | none => exact h
  | some window =>
    unfold disownWindow
    simp only
    split_ifs with hpuid
    · exact ⟨h.windows.erase (fun puid hmem ↦ (hcaller puid hmem).1) hkept, h.contexts⟩
    · refine ⟨h.windows.of_owned fun puid other hmem ↦ hkept other ?_, h.contexts⟩
      rintro rfl
      exact hpuid (hcaller puid hmem).2

theorem foldl_update_false_of_not_mem {removed : List HandleType} {keys : HandleType → Bool} (h : handle ∉ removed) :
    removed.foldl (fun keys handle ↦ Function.update keys handle false) keys handle = keys handle := by
  induction removed generalizing keys with
  | nil => rfl
  | cons first removed ih =>
    obtain ⟨hne, hrest⟩ := List.ne_and_not_mem_of_not_mem_cons h
    rw [List.foldl_cons, ih hrest, update_of_ne hne]

theorem owned_drainRenderContext (h : Owned s) (hunlisted : s.m_shuttingDown = false →
      ∀ handle ∈ (s.tInfo thread).m_contextSet, ∀ puid, handle ∉ s.m_procOwnedRenderContext puid) :
    Owned (s.drainRenderContext thread) := by
  unfold FrameBuffer.drainRenderContext
  split_ifs with hdown
  · exact h
  refine ⟨h.windows, h.contexts.of_owned fun puid other hmem hlive ↦ ?_⟩
  have hkept : other ∉ (s.tInfo thread).m_contextSet :=
    fun hset ↦ hunlisted (by simpa using hdown) other hset puid hmem
  exact (foldl_update_false_of_not_mem hkept).trans hlive

/-- `drainWindowSurface` will erase this window surface. -/
def FrameBuffer.Attached (s : FrameBuffer) (handle : HandleType) : Prop :=
  ∃ window, s.m_windows handle = some window ∧ window.attached ≠ 0

theorem keepsIndex_drainWindow : KeepsIndex s (drainWindow host s handle) := by
  unfold drainWindow
  split
  · exact ⟨rfl, rfl, rfl⟩
  · split_ifs <;> exact ⟨rfl, rfl, rfl⟩

theorem keepsIndex_drainWindows : KeepsIndex s (order.foldl (drainWindow host) s) := by
  induction order generalizing s with
  | nil => exact ⟨rfl, rfl, rfl⟩
  | cons first order ih => exact keepsIndex_drainWindow.trans ih

theorem m_windows_drainWindow {other : HandleType} (h : other = handle → ¬ s.Attached other) :
    (drainWindow host s handle).m_windows other = s.m_windows other := by
  unfold drainWindow
  cases hwindow : s.m_windows handle with
  | none => rfl
  | some window =>
    simp only
    split_ifs with hattached
    · refine update_of_ne (fun heq ↦ ?_) ..
      exact h heq ⟨window, heq ▸ hwindow, hattached⟩
    · rfl

theorem m_windows_drainWindows (h : handle ∈ order → ¬ s.Attached handle) :
    (order.foldl (drainWindow host) s).m_windows handle = s.m_windows handle := by
  induction order generalizing s with
  | nil => rfl
  | cons first order ih =>
    have hfirst : (drainWindow host s first).m_windows handle = s.m_windows handle :=
      m_windows_drainWindow fun heq ↦ h (heq ▸ List.mem_cons_self)
    rw [List.foldl_cons, ih, hfirst]
    intro hmem hattached
    unfold Attached at hattached
    rw [hfirst] at hattached
    exact h (List.mem_cons_of_mem first hmem) hattached

theorem owned_drainWindowSurface (h : Owned s) (horder : order.Perm (s.tInfo thread).m_windowSet)
    (hunlisted : s.m_shuttingDown = false → ∀ handle ∈ (s.tInfo thread).m_windowSet, s.Attached handle → ∀ puid, handle ∉ s.m_procOwnedWindowSurfaces puid) :
    Owned (s.drainWindowSurface host thread order) := by
  unfold FrameBuffer.drainWindowSurface
  split_ifs with hdown
  · exact h
  refine h.keep (keepsIndex_drainWindows.trans ⟨rfl, rfl, rfl⟩) fun puid other hmem hlive ↦ ?_
  have hkept : (order.foldl (drainWindow host) s).m_windows other = s.m_windows other :=
    m_windows_drainWindows fun horder' hattached ↦
      hunlisted (by simpa using hdown) other (horder.mem_iff.mp horder') hattached puid hmem
  exact hkept ▸ hlive

/-- The unchecked look-up of `cleanupProcGLObjects_locked` finds what it looks for, and only the
window surfaces it is told to clean up go away. -/
theorem cleanupWindows_spec (hnodup : order.Nodup) (hlive : ∀ handle ∈ order, (s.m_windows handle).isSome = true) :
    ∃ s', s.cleanupWindows host order = .ok s' ∧ KeepsIndex s s' ∧
      ∀ handle ∉ order, s'.m_windows handle = s.m_windows handle := by
  induction order generalizing s with
  | nil => exact ⟨s, rfl, ⟨rfl, rfl, rfl⟩, fun _ _ ↦ rfl⟩
  | cons first order ih =>
    obtain ⟨hfirst, hnodup⟩ := List.nodup_cons.mp hnodup
    obtain ⟨window, hwindow⟩ := Option.isSome_iff_exists.mp (hlive first List.mem_cons_self)
    obtain ⟨cleaned, hcleaned, hindex, hothers⟩ : ∃ cleaned, s.cleanupWindow host first = .ok cleaned ∧
        KeepsIndex s cleaned ∧ ∀ handle ≠ first, cleaned.m_windows handle = s.m_windows handle := by
      unfold cleanupWindow
      rw [hwindow]
      exact ⟨_, rfl, ⟨rfl, rfl, rfl⟩, fun handle hne ↦ update_of_ne hne ..⟩
    have hrest : ∀ handle ∈ order, (cleaned.m_windows handle).isSome = true := by
      intro handle hmem
      rw [hothers handle (ne_of_mem_of_not_mem hmem hfirst)]
      exact hlive handle (List.mem_cons_of_mem first hmem)
    obtain ⟨s', hs', hindex', hothers'⟩ := ih hnodup hrest
    refine ⟨s', ?_, hindex.trans hindex', fun handle hmem ↦ ?_⟩
    · rw [cleanupWindows, hcleaned]
      exact hs'
    · obtain ⟨hne, hmem⟩ := List.ne_and_not_mem_of_not_mem_cons hmem
      rw [hothers' handle hmem, hothers handle hne]

theorem cleanupWindows_of_owned (host : Host) {puid : UInt64} {windowOrder : List HandleType} (h : Owned s)
    (horder : windowOrder.Perm (s.m_procOwnedWindowSurfaces puid)) :
    ∃ s', s.cleanupWindows host windowOrder = .ok s' ∧ KeepsIndex s s' ∧
      ∀ handle ∉ windowOrder, s'.m_windows handle = s.m_windows handle :=
  cleanupWindows_spec (horder.nodup_iff.mpr (h.windows.nodup puid)) fun handle hmem ↦
    h.windows.live_of_mem puid handle (horder.mem_iff.mp hmem)

theorem owned_cleanupProcGLObjects {puid : UInt64} {windowOrder bufferOrder : List HandleType}
    (h : Owned s) (horder : windowOrder.Perm (s.m_procOwnedWindowSurfaces puid))
    (hcleanup : s.cleanupProcGLObjects host puid windowOrder bufferOrder = .ok s') : Owned s' := by
  obtain ⟨cleaned, hcleaned, hindex, hothers⟩ := cleanupWindows_of_owned host h horder
  obtain ⟨cleaned', hcleaned', rfl⟩ := cleanupProcGLObjects_cases hcleanup
  obtain rfl := Except.ok.inj (hcleaned'.symm.trans hcleaned)
  unfold cleanupObjects
  rw [hindex.procWindows, hindex.contexts, hindex.procContexts]
  constructor
  · refine h.windows.clear fun handle hmem hlive ↦ ?_
    have hkept := hothers handle fun hmem' ↦ hmem (horder.mem_iff.mp hmem')
    exact hkept ▸ hlive
  · exact h.contexts.clear fun handle hmem hlive ↦ (foldl_update_false_of_not_mem hmem).trans hlive

end Destruction

/-! ## Runs -/

/-- What a destruction or the end of a thread takes away is listed under no process, or, for a
destruction, under the caller's. -/
def DestroysOwn : Event → FrameBuffer → Prop
  | .destroyRenderContext thread handle, s =>
    ListedByCaller s.m_procOwnedRenderContext (s.tInfo thread).m_puid handle
  | .destroyWindowSurface thread handle, s => s.m_shuttingDown = false →
    ListedByCaller s.m_procOwnedWindowSurfaces (s.tInfo thread).m_puid handle
  | .drainRenderContext thread, s => s.m_shuttingDown = false →
    ∀ handle ∈ (s.tInfo thread).m_contextSet, ∀ puid, handle ∉ s.m_procOwnedRenderContext puid
  | .drainWindowSurface thread _, s => s.m_shuttingDown = false →
    ∀ handle ∈ (s.tInfo thread).m_windowSet, s.Attached handle → ∀ puid, handle ∉ s.m_procOwnedWindowSurfaces puid
  | _, _ => True

theorem step_owned (host : Host) (event : Event) (s s' : FrameBuffer) (howned : Owned s)
    (hown : DestroysOwn event s) (h : step host event s = some s') : Owned s' := by
  obtain ⟨hpossible, hexec⟩ := exec_of_step h
  cases event with
  | rcSetPuid thread puid => exact Except.ok.inj hexec ▸ howned.frame ⟨rfl, rfl, rfl⟩ rfl
  | setShuttingDown => exact Except.ok.inj hexec ▸ howned.frame ⟨rfl, rfl, rfl⟩ rfl
  | createRenderContext thread hasConfig isCreated share =>
    obtain ⟨ret, hret⟩ := map_snd_eq_ok hexec
    exact owned_createRenderContext howned hret
  | createWindowSurface thread hasConfig isCreated =>
    obtain ⟨ret, hret⟩ := map_snd_eq_ok hexec
    exact owned_createWindowSurface howned hret
  | createColorBuffer thread isCreated =>
    obtain ⟨ret, hret⟩ := map_snd_eq_ok hexec
    obtain ⟨id, generated, hgen, hlocked⟩ := createColorBuffer_cases hret
    have hswept : Owned s.sweepColorBuffersLocked := howned.frame ⟨rfl, rfl, rfl⟩ rfl
    exact owned_createColorBufferWithHandleLocked (owned_genHandle hswept hgen).1 hlocked
  | createColorBufferWithHandle thread isCreated handle =>
    obtain ⟨_, ret, hret⟩ := createColorBufferWithHandle_cases hexec
    exact owned_createColorBufferWithHandleLocked howned hret
  | createBuffer isCreated =>
    obtain ⟨ret, hret⟩ := map_snd_eq_ok hexec
    obtain ⟨id, generated, hgen, rfl | rfl⟩ := createBuffer_cases hret
    · exact (owned_genHandle howned hgen).1
    · exact (owned_genHandle howned hgen).1.frame ⟨rfl, rfl, rfl⟩ rfl
  | openColorBuffer thread handle => exact Except.ok.inj hexec ▸ owned_openColorBuffer howned
  | closeColorBuffer thread handle => exact Except.ok.inj hexec ▸ owned_closeColorBuffer howned
  | closeBuffer handle => exact Except.ok.inj hexec ▸ howned.frame ⟨rfl, rfl, rfl⟩ rfl
  | closePthreadAloneColorBuffer tid => exact Except.ok.inj hexec ▸ owned_closePthreadAlone howned
  | setWindowSurfaceColorBuffer surface handle =>
    obtain ⟨result, hresult⟩ := map_snd_eq_ok hexec
    exact owned_setWindowSurfaceColorBuffer howned hresult
  | postImpl isShown handle => exact Except.ok.inj hexec ▸ owned_postImpl howned
  | onLastColorBufferRef handle => exact Except.ok.inj hexec ▸ owned_onLastColorBufferRef howned
  | destroyRenderContext thread handle =>
    exact Except.ok.inj hexec ▸ owned_DestroyRenderContext howned hown
  | destroyWindowSurface thread handle =>
    exact Except.ok.inj hexec ▸ owned_DestroyWindowSurface howned hown
  | drainRenderContext thread => exact Except.ok.inj hexec ▸ owned_drainRenderContext howned hown
  | drainWindowSurface thread order =>
    exact Except.ok.inj hexec ▸ owned_drainWindowSurface howned hpossible hown
  | cleanupProcGLObjects puid windowOrder bufferOrder =>
    exact owned_cleanupProcGLObjects howned hpossible.1 hexec

/-- As long as objects are destroyed by the process that lists them, every listed object is there
and the clean-up of any process comes to its end. -/
theorem procOwned_live_of_destroysOwn (host : Host) (events : List Event) (s : FrameBuffer)
    (hown : Guarded (step host) DestroysOwn .new events)
    (hrun : run (step host) .new events = some s) :
    (∀ puid, ∀ handle ∈ s.m_procOwnedWindowSurfaces puid, (s.m_windows handle).isSome = true) ∧
      (∀ puid, ∀ handle ∈ s.m_procOwnedRenderContext puid, s.m_contexts handle = true) ∧
      ∀ puid windowOrder bufferOrder, windowOrder.Perm (s.m_procOwnedWindowSurfaces puid) →
        ∃ s', s.cleanupProcGLObjects host puid windowOrder bufferOrder = .ok s' := by
  have howned : Owned s := invariant_of_guarded Owned (step_owned host) owned_new hown hrun
  refine ⟨howned.windows.live_of_mem, howned.contexts.live_of_mem, ?_⟩
  intro puid windowOrder bufferOrder horder
  obtain ⟨cleaned, hcleaned, _⟩ := cleanupWindows_of_owned host howned horder
  exact ⟨cleaned.cleanupObjects host puid bufferOrder, by
    rw [FrameBuffer.cleanupProcGLObjects, hcleaned]⟩

/-- A second thread of the process destroys its window surface. -/
theorem procOwned_live_same_process :
    ∃ s, run (step .counting) .new [.rcSetPuid 1 5, .createWindowSurface 1 true true,
        .createWindowSurface 1 true true, .rcSetPuid 2 5, .destroyWindowSurface 2 1] = some s ∧
      (∀ puid, ∀ handle ∈ s.m_procOwnedWindowSurfaces puid, (s.m_windows handle).isSome = true) ∧
      (∀ puid, ∀ handle ∈ s.m_procOwnedRenderContext puid, s.m_contexts handle = true) ∧
      ∀ puid windowOrder bufferOrder, windowOrder.Perm (s.m_procOwnedWindowSurfaces puid) →
        ∃ s', s.cleanupProcGLObjects .counting puid windowOrder bufferOrder = .ok s' := by
  obtain ⟨s, hrun⟩ := Option.isSome_iff_exists.mp (show (run (step .counting) .new
    [.rcSetPuid 1 5, .createWindowSurface 1 true true, .createWindowSurface 1 true true, .rcSetPuid 2 5,
      .destroyWindowSurface 2 1]).isSome = true by decide +kernel)
  refine ⟨s, hrun, procOwned_live_of_destroysOwn .counting _ s ?_ hrun⟩
  refine ⟨trivial, fun s₁ h₁ ↦ ⟨trivial, fun s₂ h₂ ↦ ⟨trivial, fun s₃ h₃ ↦ ⟨trivial, fun s₄ h₄ ↦
    ⟨fun _ puid hmem ↦ ?_, fun _ _ ↦ trivial⟩⟩⟩⟩⟩
  have hlists : (run (step .counting) .new [.rcSetPuid 1 5, .createWindowSurface 1 true true,
      .createWindowSurface 1 true true, .rcSetPuid 2 5]).map
        (fun s ↦ ((s.tInfo 2).m_puid, s.m_procOwnedWindowSurfaces)) =
      some (5, Function.update (Function.update (fun _ ↦ []) 5 [1]) 5 [2, 1]) := rfl
  simp only [run_cons, h₁, h₂, h₃, h₄, run_nil, Option.bind_some, Option.map_some, Option.some.injEq,
    Prod.mk.injEq] at hlists
  rw [hlists.1]
  rw [hlists.2] at hmem
  obtain ⟨rfl, _⟩ | ⟨_, hmem⟩ := mem_update hmem
  · exact ⟨rfl, by decide⟩
  · obtain ⟨rfl, _⟩ | ⟨_, hmem⟩ := mem_update hmem
    · exact ⟨rfl, by decide⟩
    · cases hmem

/-- Another process destroys the window surface, which stays listed. -/
theorem destroyed_by_other_process :
    ∃ s, run (step .counting) .new [.rcSetPuid 1 5, .createWindowSurface 1 true true,
        .rcSetPuid 2 6, .destroyWindowSurface 2 1] = some s ∧
      1 ∈ s.m_procOwnedWindowSurfaces 5 ∧ s.m_windows 1 = none ∧
      s.cleanupProcGLObjects .counting 5 [1] [] = .error .undefinedBehaviour :=
  ⟨_, rfl, by decide +kernel, rfl, rfl⟩

end FdeEmugl.Fb

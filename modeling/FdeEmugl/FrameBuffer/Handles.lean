import FdeEmugl.FrameBuffer.Operations
import FdeEmugl.Library.Runs
import Mathlib.Data.Set.Card

/-!
# Handles name one object

`genHandle_locked` gives out ids that none of the four maps uses, over the wrap of its
counter, as long as one is free. The other way to get a handle is
`createColorBufferWithHandle`, which takes the guest's and looks only at
`m_colorbuffers`.
-/

namespace FdeEmugl.Fb

open Runs ColorBuffers
open FrameBuffer

inductive Kind where
  | context
  | window
  | colorBuffer
  | buffer
deriving Repr, DecidableEq

namespace FrameBuffer

/-- The handle is a key of the map of this kind. -/
def has (s : FrameBuffer) : Kind → HandleType → Bool
  | .context, id => s.m_contexts id
  | .window, id => (s.m_windows id).isSome
  | .colorBuffer, id => (s.m_colorbuffers id).isSome
  | .buffer, id => s.m_buffers id

def live (s : FrameBuffer) : Set HandleType := { id | ∃ kind, s.has kind id = true }

/-- The four key sets are pairwise disjoint and none contains 0. -/
structure Distinct (s : FrameBuffer) : Prop where
  zero : ∀ kind, s.has kind 0 = false
  disjoint : ∀ kind kind' id, s.has kind id = true → s.has kind' id = true → kind = kind'

theorem taken_eq_false {s : FrameBuffer} {id : HandleType} :
    s.taken id = false ↔ id ≠ 0 ∧ ∀ kind, s.has kind id = false := by
  simp only [taken, Bool.or_eq_false_iff, decide_eq_false_iff_not]
  constructor
  · rintro ⟨⟨⟨⟨hzero, hcontext⟩, hwindow⟩, hcolorBuffer⟩, hbuffer⟩
    refine ⟨hzero, fun kind ↦ ?_⟩
    cases kind with
    | context => exact hcontext
    | window => exact hwindow
    | colorBuffer => exact hcolorBuffer
    | buffer => exact hbuffer
  · rintro ⟨hzero, hall⟩
    exact ⟨⟨⟨⟨hzero, hall .context⟩, hall .window⟩, hall .colorBuffer⟩, hall .buffer⟩

end FrameBuffer

/-! ## The generator -/

section Generator

variable {s s' : FrameBuffer} {id : HandleType}

theorem taken_of_genHandleFrom {fuel : ℕ} {next : HandleType}
    (h : s.genHandleFrom fuel next = some id) : s.taken id = false := by
  induction fuel generalizing next with
  | zero => cases h
  | succ fuel ih =>
    unfold genHandleFrom at h
    split_ifs at h with htaken
    · exact ih h
    · rw [← Option.some.inj h]
      simpa using htaken

/-- The loop has passed over every id it has come to. -/
theorem taken_of_genHandleFrom_none {fuel : ℕ} {next : HandleType}
    (h : s.genHandleFrom fuel next = none) (offset : ℕ) (hpos : 0 < offset) (hle : offset ≤ fuel) :
    s.taken (next + UInt32.ofNat offset) = true := by
  induction fuel generalizing next offset with
  | zero => omega
  | succ fuel ih =>
    unfold genHandleFrom at h
    split_ifs at h with htaken
    obtain rfl | hmore := Nat.eq_or_lt_of_le (Nat.succ_le_of_lt hpos)
    · exact htaken
    · have hrest := ih h (offset - 1) (by omega) (by omega)
      have hsucc : UInt32.ofNat offset = 1 + UInt32.ofNat (offset - 1) := by
        have hone : (1 : UInt32) = UInt32.ofNat 1 := rfl
        rw [hone, ← UInt32.ofNat_add, Nat.add_sub_cancel' (by omega)]
      rwa [hsucc, ← UInt32.add_assoc]

theorem genHandle_locked_ok (h : s.genHandle_locked = .ok (id, s')) :
    s.taken id = false ∧ s' = { s with s_nextHandle := id } := by
  unfold genHandle_locked at h
  split at h
  · cases h
  · next found hfound =>
    simp only [Except.ok.injEq, Prod.mk.injEq] at h
    obtain ⟨rfl, rfl⟩ := h
    exact ⟨taken_of_genHandleFrom hfound, rfl⟩

theorem taken_of_genHandle_locked_error {fault : Fault} (h : s.genHandle_locked = .error fault)
    (id : HandleType) : s.taken id = true := by
  unfold genHandle_locked at h
  split at h
  · next hnone =>
    by_cases hself : id = s.s_nextHandle
    · have hwrap := taken_of_genHandleFrom_none hnone (2 ^ 32) (by decide) le_rfl
      have hzero : UInt32.ofNat (2 ^ 32) = 0 := by decide
      rwa [hzero, UInt32.add_zero, ← hself] at hwrap
    · have hdiff : id - s.s_nextHandle ≠ 0 := by
        intro hzero
        apply hself
        rw [← UInt32.sub_add_cancel id s.s_nextHandle, hzero, UInt32.zero_add]
      have hpos : 0 < (id - s.s_nextHandle).toNat := Nat.pos_of_ne_zero fun hzero ↦ hdiff (UInt32.toNat_inj.mp hzero)
      have hall := taken_of_genHandleFrom_none hnone _ hpos (UInt32.toNat_lt _).le
      rwa [UInt32.ofNat_toNat, UInt32.add_comm, UInt32.sub_add_cancel] at hall
  · cases h

instance finite_handleType : Finite HandleType := Finite.of_injective UInt32.toFin fun _ _ h ↦ UInt32.toFin_inj.mp h

theorem card_handleType : Nat.card HandleType = 2 ^ 32 := by
  have hequiv : HandleType ≃ Fin (2 ^ 32) := ⟨UInt32.toFin, UInt32.ofFin, fun _ ↦ rfl, fun _ ↦ rfl⟩
  rw [Nat.card_congr hequiv, Nat.card_eq_fintype_card, Fintype.card_fin]

/-- With fewer than 2^32 - 1 live handles `genHandle_locked` returns, and its id is fresh. -/
theorem genHandle_locked_terminates (h : s.live.ncard < 2 ^ 32 - 1) :
    ∃ id, s.genHandle_locked = .ok (id, { s with s_nextHandle := id }) ∧ id ≠ 0 ∧ ∀ kind, s.has kind id = false := by
  cases hgen : s.genHandle_locked with
  | ok result =>
    obtain ⟨id, generated⟩ := result
    obtain ⟨htaken, hstate⟩ := genHandle_locked_ok hgen
    exact ⟨id, by rw [← hstate], FrameBuffer.taken_eq_false.mp htaken⟩
  | error fault =>
    exfalso
    have hall : ({0} : Set HandleType)ᶜ ⊆ s.live := by
      intro id hid
      by_contra hdead
      have hfree : s.taken id = false := by
        refine FrameBuffer.taken_eq_false.mpr ⟨hid, fun kind ↦ ?_⟩
        by_contra hlive
        exact hdead ⟨kind, by simpa using hlive⟩
      rw [taken_of_genHandle_locked_error hgen id] at hfree
      cases hfree
    have hcard := Set.ncard_le_ncard hall (Set.toFinite _)
    rw [Set.ncard_compl, Set.ncard_singleton, card_handleType] at hcard
    omega

end Generator

/-! ## What the operations do to the keys -/

section Keys

variable {s s' s'' : FrameBuffer} {host : Host} {thread : ThreadId} {handle : HandleType}

/-- Every key of the second state is a key of the first. -/
structure Shrinks (s s' : FrameBuffer) : Prop where
  contexts : ∀ id, s'.m_contexts id = true → s.m_contexts id = true
  windows : ∀ id, (s'.m_windows id).isSome = true → (s.m_windows id).isSome = true
  colorBuffers : LiveSubset s.colorBuffers s'.colorBuffers
  buffers : ∀ id, s'.m_buffers id = true → s.m_buffers id = true

variable {order : List HandleType}

theorem Shrinks.refl (s : FrameBuffer) : Shrinks s s where
  contexts _ hid := hid
  windows _ hid := hid
  colorBuffers := LiveSubset.refl s.colorBuffers
  buffers _ hid := hid

theorem Shrinks.trans (h : Shrinks s s') (h' : Shrinks s' s'') : Shrinks s s'' where
  contexts id hid := h.contexts id (h'.contexts id hid)
  windows id hid := h.windows id (h'.windows id hid)
  colorBuffers := h.colorBuffers.trans h'.colorBuffers
  buffers id hid := h.buffers id (h'.buffers id hid)

theorem Shrinks.has (h : Shrinks s s') (kind : Kind) (id : HandleType) (hid : s'.has kind id = true) :
    s.has kind id = true := by
  cases kind with
  | context => exact h.contexts id hid
  | window => exact h.windows id hid
  | colorBuffer => exact h.colorBuffers id hid
  | buffer => exact h.buffers id hid

theorem of_update_false {keys : HandleType → Bool} {removed id : HandleType}
    (h : Function.update keys removed false id = true) : keys id = true := by
  by_cases heq : id = removed
  · simp [heq] at h
  · rwa [Function.update_of_ne heq] at h

theorem isSome_of_update_none {Value : Type*} {map : HandleType → Option Value} {removed id : HandleType}
    (h : (Function.update map removed none id).isSome = true) : (map id).isSome = true := by
  by_cases heq : id = removed
  · simp [heq] at h
  · rwa [Function.update_of_ne heq] at h

theorem isSome_of_update_some {Value : Type*} {map : HandleType → Option Value} {old new : Value}
    {changed id : HandleType} (hchanged : map changed = some old)
    (h : (Function.update map changed (some new) id).isSome = true) : (map id).isSome = true := by
  by_cases heq : id = changed
  · simp [heq, hchanged]
  · rwa [Function.update_of_ne heq] at h

theorem of_foldl_update_false {removed : List HandleType} {keys : HandleType → Bool} {id : HandleType}
    (h : removed.foldl (fun keys handle ↦ Function.update keys handle false) keys id = true) :
    keys id = true := by
  induction removed generalizing keys with
  | nil => exact h
  | cons first removed ih => exact of_update_false (ih h)

theorem shrinks_sweep (s : FrameBuffer) : Shrinks s s.sweepColorBuffersLocked :=
  { Shrinks.refl s with colorBuffers := liveSubset_foldl (fun s handle ↦ liveSubset_dec handle s) _ _ }

theorem shrinks_genHandle (h : s.genHandle_locked = .ok (handle, s')) : Shrinks s s' := by
  rw [(genHandle_locked_ok h).2]
  exact { Shrinks.refl s with }

theorem shrinks_openColorBuffer : Shrinks s (s.openColorBuffer host thread handle).2 := by
  unfold FrameBuffer.openColorBuffer
  split_ifs
  · exact .refl s
  cases hlive : s.m_colorbuffers handle with
  | none => exact .refl s
  | some ref =>
    have hopen := liveSubset_markOpened hlive { ref with refcount := ref.refcount + 1 }
    simp only
    split_ifs <;> exact { Shrinks.refl s with colorBuffers := hopen }

theorem shrinks_closeColorBuffer : Shrinks s (s.closeColorBuffer host thread handle) := by
  have hclose := liveSubset_close host handle false s.colorBuffers
  unfold FrameBuffer.closeColorBuffer
  simp only
  split_ifs
  · exact .refl s
  · exact { Shrinks.refl s with colorBuffers := hclose }
  · exact .refl s
  · exact { Shrinks.refl s with colorBuffers := hclose }

theorem shrinks_closePthreadAlone : Shrinks s (s.closePthreadAloneColorBuffer thread) := by
  unfold FrameBuffer.closePthreadAloneColorBuffer
  split_ifs
  · exact { Shrinks.refl s with
        colorBuffers := liveSubset_foldl (fun s handle ↦ liveSubset_erase s handle) _ _ }
  · exact .refl s

theorem shrinks_setWindowSurfaceColorBuffer {surface : HandleType} {result : Bool}
    (h : s.setWindowSurfaceColorBuffer host surface handle = .ok (result, s')) : Shrinks s s' := by
  obtain rfl | ⟨window, ref, cbs, hwindow, _, _, hcbs, rfl⟩ := setWindowSurfaceColorBuffer_cases h
  · exact .refl s'
  · exact { Shrinks.refl s with windows := fun _ ↦ isSome_of_update_some hwindow, colorBuffers := hcbs }

theorem shrinks_postImpl {isShown : Bool} : Shrinks s (s.postImpl isShown handle).2 := by
  unfold FrameBuffer.postImpl
  split_ifs
  · cases hlive : s.m_colorbuffers handle with
    | none => exact .refl s
    | some ref => exact { Shrinks.refl s with colorBuffers := liveSubset_markOpened hlive ref }
  · exact .refl s

theorem shrinks_disownContext : Shrinks s (s.disownContext thread handle) := by
  unfold disownContext
  simp only
  split_ifs <;> exact { Shrinks.refl s with }

theorem shrinks_DestroyRenderContext : Shrinks s (s.DestroyRenderContext thread handle) := by
  apply (shrinks_sweep s).trans
  refine Shrinks.trans ?_ shrinks_disownContext
  exact { Shrinks.refl s.sweepColorBuffersLocked with contexts := fun _ ↦ of_update_false }

theorem shrinks_disownWindow : Shrinks s (s.disownWindow thread handle) := by
  unfold disownWindow
  simp only
  split_ifs <;> exact { Shrinks.refl s with }

theorem liveSubset_releaseWindow (host : Host) (window : Window) (cbs : ColorBuffers) :
    LiveSubset cbs (releaseWindow host window cbs) := by
  unfold releaseWindow
  split_ifs
  · exact liveSubset_dec window.attached cbs
  · exact (liveSubset_close host window.attached false cbs).trans (liveSubset_closeAll host _ _)

theorem shrinks_DestroyWindowSurface : Shrinks s (s.DestroyWindowSurface host thread handle) := by
  unfold DestroyWindowSurface
  split_ifs
  · exact .refl s
  cases hwindow : s.m_windows handle with
  | none => exact .refl s
  | some window =>
    refine Shrinks.trans ?_ shrinks_disownWindow
    exact { Shrinks.refl s with
        windows := fun _ ↦ isSome_of_update_none
        colorBuffers := liveSubset_releaseWindow host window s.colorBuffers }

theorem shrinks_drainRenderContext : Shrinks s (s.drainRenderContext thread) := by
  unfold FrameBuffer.drainRenderContext
  split_ifs
  · exact .refl s
  · exact { Shrinks.refl s with contexts := fun _ ↦ of_foldl_update_false }

theorem shrinks_drainWindow : Shrinks s (s.drainWindow host handle) := by
  unfold drainWindow
  cases hwindow : s.m_windows handle with
  | none => exact .refl s
  | some window =>
    simp only
    split_ifs
    · exact { Shrinks.refl s with
          windows := fun _ ↦ isSome_of_update_none
          colorBuffers := liveSubset_releaseWindow host window s.colorBuffers }
    · exact .refl s

theorem shrinks_drainWindows : Shrinks s (order.foldl (drainWindow host) s) := by
  induction order generalizing s with
  | nil => exact .refl s
  | cons winHandle order ih => exact shrinks_drainWindow.trans ih

theorem shrinks_drainWindowSurface : Shrinks s (s.drainWindowSurface host thread order) := by
  unfold FrameBuffer.drainWindowSurface
  split_ifs
  · exact .refl s
  · exact shrinks_drainWindows.trans { Shrinks.refl _ with }

theorem shrinks_cleanupWindow (h : s.cleanupWindow host handle = .ok s') : Shrinks s s' := by
  obtain ⟨window, _, rfl⟩ := cleanupWindow_cases h
  refine { Shrinks.refl s with windows := fun _ ↦ isSome_of_update_none, colorBuffers := ?_ }
  simp only
  split_ifs
  · exact liveSubset_dec window.attached s.colorBuffers
  · exact liveSubset_close host window.attached false s.colorBuffers

theorem shrinks_cleanupWindows (h : s.cleanupWindows host order = .ok s') : Shrinks s s' := by
  induction order generalizing s with
  | nil => exact Except.ok.inj h ▸ .refl s
  | cons whndl order ih =>
    obtain ⟨cleaned, hcleaned, hrest⟩ := cleanupWindows_cases h
    exact (shrinks_cleanupWindow hcleaned).trans (ih hrest)

theorem shrinks_cleanupProcGLObjects {puid : UInt64} {windowOrder bufferOrder : List HandleType}
    (h : s.cleanupProcGLObjects host puid windowOrder bufferOrder = .ok s') : Shrinks s s' := by
  obtain ⟨cleaned, hcleaned, rfl⟩ := cleanupProcGLObjects_cases h
  exact (shrinks_cleanupWindows hcleaned).trans { Shrinks.refl cleaned with
      contexts := fun _ ↦ of_foldl_update_false, colorBuffers := liveSubset_closeAll host _ _ }

end Keys

/-! ## Creation adds one fresh key -/

section Fresh

variable {s s' : FrameBuffer} {host : Host} {thread : ThreadId} {handle : HandleType}

/-- At most this key is new. -/
structure Adds (kind : Kind) (handle : HandleType) (s s' : FrameBuffer) : Prop where
  contexts : ∀ id, s'.m_contexts id = true → s.m_contexts id = true ∨ kind = .context ∧ id = handle
  windows : ∀ id, (s'.m_windows id).isSome = true → (s.m_windows id).isSome = true ∨ kind = .window ∧ id = handle
  colorBuffers : ∀ id, (s'.m_colorbuffers id).isSome = true →
      (s.m_colorbuffers id).isSome = true ∨ kind = .colorBuffer ∧ id = handle
  buffers : ∀ id, s'.m_buffers id = true → s.m_buffers id = true ∨ kind = .buffer ∧ id = handle

variable {isCreated : Bool} {ret : HandleType}

theorem Adds.refl (kind : Kind) (handle : HandleType) (s : FrameBuffer) : Adds kind handle s s where
  contexts _ hid := .inl hid
  windows _ hid := .inl hid
  colorBuffers _ hid := .inl hid
  buffers _ hid := .inl hid

theorem Adds.has {kind : Kind} (h : Adds kind handle s s') (kind' : Kind) (id : HandleType)
    (hid : s'.has kind' id = true) : s.has kind' id = true ∨ kind = kind' ∧ id = handle := by
  cases kind' with
  | context => exact h.contexts id hid
  | window => exact h.windows id hid
  | colorBuffer => exact h.colorBuffers id hid
  | buffer => exact h.buffers id hid

theorem of_update_true {keys : HandleType → Bool} {added id : HandleType}
    (h : Function.update keys added true id = true) : keys id = true ∨ id = added := by
  by_cases heq : id = added
  · exact .inr heq
  · rw [Function.update_of_ne heq] at h
    exact .inl h

theorem isSome_or_of_update_some {Value : Type*} {map : HandleType → Option Value} {new : Value}
    {added id : HandleType} (h : (Function.update map added (some new) id).isSome = true) :
    (map id).isSome = true ∨ id = added := by
  by_cases heq : id = added
  · exact .inr heq
  · rw [Function.update_of_ne heq] at h
    exact .inl h

theorem Shrinks.distinct (h : Shrinks s s') (hdistinct : s.Distinct) : s'.Distinct where
  zero kind := by
    by_contra hzero
    have hlive := h.has kind 0 (by simpa using hzero)
    rw [hdistinct.zero kind] at hlive
    cases hlive
  disjoint kind kind' id hid hid' := hdistinct.disjoint kind kind' id (h.has kind id hid) (h.has kind' id hid')

theorem Adds.distinct {kind : Kind} (h : Adds kind handle s s') (hdistinct : s.Distinct)
    (hhandle : handle ≠ 0) (hfresh : ∀ kind, s.has kind handle = false) : s'.Distinct where
  zero kind' := by
    by_contra hzero
    obtain hlive | ⟨_, heq⟩ := h.has kind' 0 (by simpa using hzero)
    · rw [hdistinct.zero kind'] at hlive
      cases hlive
    · exact hhandle heq.symm
  disjoint first second id hfirst hsecond := by
    obtain hfirst | ⟨rfl, rfl⟩ := h.has first id hfirst
    · obtain hsecond | ⟨rfl, rfl⟩ := h.has second id hsecond
      · exact hdistinct.disjoint first second id hfirst hsecond
      · rw [hfresh first] at hfirst
        cases hfirst
    · obtain hsecond | ⟨rfl, _⟩ := h.has second id hsecond
      · rw [hfresh second] at hsecond
        cases hsecond
      · rfl

theorem genHandle_fresh (h : s.genHandle_locked = .ok (handle, s')) (hdistinct : s.Distinct) :
    s'.Distinct ∧ handle ≠ 0 ∧ ∀ kind, s'.has kind handle = false := by
  obtain ⟨htaken, hstate⟩ := genHandle_locked_ok h
  obtain ⟨hzero, hfresh⟩ := FrameBuffer.taken_eq_false.mp htaken
  have hsame : ∀ kind, s'.has kind handle = s.has kind handle := by
    intro kind
    rw [hstate]
    cases kind <;> rfl
  exact ⟨(shrinks_genHandle h).distinct hdistinct, hzero, fun kind ↦ (hsame kind).trans (hfresh kind)⟩

theorem adds_addContext : Adds .context handle s (s.addContext thread handle) := by
  have hadd : ∀ id, Function.update s.m_contexts handle true id = true →
      s.m_contexts id = true ∨ Kind.context = .context ∧ id = handle :=
    fun id hid ↦ (of_update_true hid).imp_right fun heq ↦ ⟨rfl, heq⟩
  unfold addContext
  simp only
  split_ifs <;> exact { Adds.refl .context handle s with contexts := hadd }

theorem adds_addWindow : Adds .window handle s (s.addWindow thread handle) := by
  have hadd : ∀ id, (Function.update s.m_windows handle (some ⟨0, []⟩) id).isSome = true →
      (s.m_windows id).isSome = true ∨ Kind.window = .window ∧ id = handle :=
    fun id hid ↦ (isSome_or_of_update_some hid).imp_right fun heq ↦ ⟨rfl, heq⟩
  unfold addWindow
  simp only
  split_ifs <;> exact { Adds.refl .window handle s with windows := hadd }

theorem adds_ownNewColorBuffer (host : Host) (thread : ThreadId) (handle : HandleType) (s : FrameBuffer) :
    Adds .colorBuffer handle s
      ({ s with colorBuffers := s.colorBuffers.set handle created }.ownNewColorBuffer host thread handle) := by
  have hadd : ∀ id, ((s.colorBuffers.set handle created).m_colorbuffers id).isSome = true →
      (s.m_colorbuffers id).isSome = true ∨ Kind.colorBuffer = .colorBuffer ∧ id = handle :=
    fun id hid ↦ (isSome_or_of_update_some hid).imp_right fun heq ↦ ⟨rfl, heq⟩
  unfold ownNewColorBuffer
  simp only
  split_ifs <;> exact { Adds.refl .colorBuffer handle s with colorBuffers := hadd }

theorem distinct_createRenderContext {hasConfig : Bool} {share : HandleType}
    (h : s.createRenderContext thread hasConfig isCreated share = .ok (ret, s')) (hdistinct : s.Distinct) :
    s'.Distinct := by
  obtain rfl | ⟨id, generated, hgen, hstate⟩ := createRenderContext_cases h
  · exact hdistinct
  obtain ⟨hgenerated, hzero, hfresh⟩ := genHandle_fresh hgen hdistinct
  obtain rfl | rfl := hstate
  · exact hgenerated
  · exact adds_addContext.distinct hgenerated hzero hfresh

theorem distinct_createWindowSurface {hasConfig : Bool}
    (h : s.createWindowSurface thread hasConfig isCreated = .ok (ret, s')) (hdistinct : s.Distinct) :
    s'.Distinct := by
  obtain rfl | ⟨id, generated, hgen, hstate⟩ := createWindowSurface_cases h
  · exact hdistinct
  obtain ⟨hgenerated, hzero, hfresh⟩ := genHandle_fresh hgen hdistinct
  obtain rfl | rfl := hstate
  · exact hgenerated
  · exact adds_addWindow.distinct hgenerated hzero hfresh

/-- A color buffer under a handle that no map uses. -/
theorem distinct_createColorBufferWithHandleLocked
    (h : s.createColorBufferWithHandleLocked host thread isCreated handle = .ok (ret, s'))
    (hdistinct : s.Distinct) (hfresh : isCreated = true → handle ≠ 0 ∧ ∀ kind, s.has kind handle = false) :
    s'.Distinct := by
  have hswept := (shrinks_sweep s).distinct hdistinct
  obtain rfl | ⟨hcreated, _, rfl⟩ := createColorBufferWithHandleLocked_cases h
  · exact hswept
  obtain ⟨hzero, hfree⟩ := hfresh hcreated
  refine (adds_ownNewColorBuffer host thread handle _).distinct hswept hzero fun kind ↦ ?_
  by_contra hlive
  have hbefore := (shrinks_sweep s).has kind handle (by simpa using hlive)
  rw [hfree kind] at hbefore
  cases hbefore

theorem distinct_createColorBuffer (h : s.createColorBuffer host thread isCreated = .ok (ret, s'))
    (hdistinct : s.Distinct) : s'.Distinct := by
  obtain ⟨id, generated, hgen, hlocked⟩ := createColorBuffer_cases h
  obtain ⟨hgenerated, hfresh⟩ := genHandle_fresh hgen ((shrinks_sweep s).distinct hdistinct)
  exact distinct_createColorBufferWithHandleLocked hlocked hgenerated fun _ ↦ hfresh

theorem distinct_createBuffer (h : s.createBuffer isCreated = .ok (ret, s')) (hdistinct : s.Distinct) :
    s'.Distinct := by
  obtain ⟨id, generated, hgen, hstate⟩ := createBuffer_cases h
  obtain ⟨hgenerated, hzero, hfresh⟩ := genHandle_fresh hgen hdistinct
  obtain rfl | rfl := hstate
  · exact hgenerated
  · have hadds : Adds .buffer id generated
        { generated with m_buffers := Function.update generated.m_buffers id true } :=
      { Adds.refl .buffer id generated with
        buffers := fun _ hid ↦ (of_update_true hid).imp_right fun heq ↦ ⟨rfl, heq⟩ }
    exact hadds.distinct hgenerated hzero hfresh

end Fresh

/-! ## Runs -/

/-- The handle a guest names for the color buffer it creates. -/
def Event.offered : Event → Option HandleType
  | .createColorBufferWithHandle _ true handle => some handle
  | _ => none

/-- Such a handle is not 0, and no context, window surface or buffer has it. -/
def OffersFresh (event : Event) (s : FrameBuffer) : Prop :=
  ∀ handle ∈ event.offered, handle ≠ 0 ∧ s.m_contexts handle = false ∧
    (s.m_windows handle).isSome = false ∧ s.m_buffers handle = false

instance decidableOffersFresh (event : Event) (s : FrameBuffer) : Decidable (OffersFresh event s) :=
  Option.decidableForallMem event.offered

theorem step_distinct (host : Host) (event : Event) (s s' : FrameBuffer) (hdistinct : s.Distinct)
    (hfresh : OffersFresh event s) (h : step host event s = some s') : s'.Distinct := by
  obtain ⟨_, hexec⟩ := exec_of_step h
  cases event with
  | rcSetPuid thread puid =>
    rw [← Except.ok.inj hexec]
    exact Shrinks.distinct { Shrinks.refl s with } hdistinct
  | setShuttingDown =>
    rw [← Except.ok.inj hexec]
    exact Shrinks.distinct { Shrinks.refl s with } hdistinct
  | createRenderContext thread hasConfig isCreated share =>
    obtain ⟨ret, hret⟩ := map_snd_eq_ok hexec
    exact distinct_createRenderContext hret hdistinct
  | createWindowSurface thread hasConfig isCreated =>
    obtain ⟨ret, hret⟩ := map_snd_eq_ok hexec
    exact distinct_createWindowSurface hret hdistinct
  | createColorBuffer thread isCreated =>
    obtain ⟨ret, hret⟩ := map_snd_eq_ok hexec
    exact distinct_createColorBuffer hret hdistinct
  | createColorBufferWithHandle thread isCreated handle =>
    obtain ⟨hcollision, ret, hret⟩ := createColorBufferWithHandle_cases hexec
    refine distinct_createColorBufferWithHandleLocked hret hdistinct fun hcreated ↦ ?_
    obtain ⟨hzero, hcontext, hwindow, hbuffer⟩ := hfresh handle (by rw [hcreated]; rfl)
    refine ⟨hzero, fun kind ↦ ?_⟩
    cases kind with
    | context => exact hcontext
    | window => exact hwindow
    | colorBuffer => simp [FrameBuffer.has, hcollision]
    | buffer => exact hbuffer
  | createBuffer isCreated =>
    obtain ⟨ret, hret⟩ := map_snd_eq_ok hexec
    exact distinct_createBuffer hret hdistinct
  | openColorBuffer thread handle => exact Except.ok.inj hexec ▸ shrinks_openColorBuffer.distinct hdistinct
  | closeColorBuffer thread handle => exact Except.ok.inj hexec ▸ shrinks_closeColorBuffer.distinct hdistinct
  | closeBuffer handle =>
    rw [← Except.ok.inj hexec]
    exact Shrinks.distinct { Shrinks.refl s with buffers := fun _ ↦ of_update_false } hdistinct
  | closePthreadAloneColorBuffer tid =>
    exact Except.ok.inj hexec ▸ shrinks_closePthreadAlone.distinct hdistinct
  | setWindowSurfaceColorBuffer surface handle =>
    obtain ⟨result, hresult⟩ := map_snd_eq_ok hexec
    exact (shrinks_setWindowSurfaceColorBuffer hresult).distinct hdistinct
  | postImpl isShown handle => exact Except.ok.inj hexec ▸ shrinks_postImpl.distinct hdistinct
  | onLastColorBufferRef handle =>
    rw [← Except.ok.inj hexec]
    refine Shrinks.distinct ?_ hdistinct
    unfold FrameBuffer.onLastColorBufferRef
    split_ifs <;> exact { Shrinks.refl s with }
  | destroyRenderContext thread handle =>
    exact Except.ok.inj hexec ▸ shrinks_DestroyRenderContext.distinct hdistinct
  | destroyWindowSurface thread handle =>
    exact Except.ok.inj hexec ▸ shrinks_DestroyWindowSurface.distinct hdistinct
  | drainRenderContext thread => exact Except.ok.inj hexec ▸ shrinks_drainRenderContext.distinct hdistinct
  | drainWindowSurface thread order =>
    exact Except.ok.inj hexec ▸ shrinks_drainWindowSurface.distinct hdistinct
  | cleanupProcGLObjects puid windowOrder bufferOrder =>
    exact (shrinks_cleanupProcGLObjects hexec).distinct hdistinct

theorem distinct_new : FrameBuffer.new.Distinct where
  zero kind := by cases kind <;> rfl
  disjoint kind kind' id hid := by cases kind <;> cases hid

/-- As long as guests offer fresh handles, every handle names one object, and another one is
found while there is one. -/
theorem handles_distinct_of_offersFresh (host : Host) (events : List Event) (s : FrameBuffer)
    (hfresh : Guarded (step host) OffersFresh .new events)
    (hrun : run (step host) .new events = some s) :
    s.Distinct ∧ (s.live.ncard < 2 ^ 32 - 1 →
      ∃ id, s.genHandle_locked = .ok (id, { s with s_nextHandle := id }) ∧ id ≠ 0 ∧
        ∀ kind, s.has kind id = false) :=
  ⟨invariant_of_guarded FrameBuffer.Distinct (step_distinct host) distinct_new hfresh hrun, genHandle_locked_terminates⟩

theorem handles_distinct_chosen_then_generated :
    ∃ s, run (step .counting) .new [.createColorBufferWithHandle 1 true 1, .createWindowSurface 1 true true] =
        some s ∧ s.Distinct ∧
      ∃ id, s.genHandle_locked = .ok (id, { s with s_nextHandle := id }) ∧ id ≠ 0 ∧
        ∀ kind, s.has kind id = false := by
  let chosen := { FrameBuffer.new with
    colorBuffers := ColorBuffers.new.set 1 created }.ownNewColorBuffer .counting 1 1
  let counted := { chosen with s_nextHandle := 2 }
  have hrun : run (step .counting) .new
      [.createColorBufferWithHandle 1 true 1, .createWindowSurface 1 true true] =
        some (counted.addWindow 1 2) := rfl
  have hlive : (counted.addWindow 1 2).live ⊆ {1, 2} := by
    rintro id ⟨kind, hid⟩
    obtain hid | ⟨_, rfl⟩ := adds_addWindow.has kind id hid
    · have hchosen : chosen.has kind id = true := by
        cases kind <;> exact hid
      obtain hid | ⟨_, rfl⟩ := (adds_ownNewColorBuffer .counting 1 1 .new).has kind id hchosen
      · cases kind <;> cases hid
      · simp
    · simp
  have hcard : (counted.addWindow 1 2).live.ncard < 2 ^ 32 - 1 := by
    have hle := (Set.ncard_le_ncard hlive).trans (Set.ncard_insert_le 1 {2})
    rw [Set.ncard_singleton] at hle
    omega
  obtain ⟨hdistinct, hnext⟩ :=
    handles_distinct_of_offersFresh .counting _ _ (by decide +kernel) hrun
  exact ⟨_, hrun, hdistinct, hnext hcard⟩

/-- A guest takes the handle of a window surface for a color buffer. -/
theorem handle_names_two_objects :
    ∃ s, run (step .counting) .new [.createWindowSurface 1 true true, .createColorBufferWithHandle 1 true 1] =
        some s ∧ ¬ s.Distinct := by
  refine ⟨_, rfl, fun hdistinct ↦ ?_⟩
  have hsame := hdistinct.disjoint .window .colorBuffer 1 (by decide +kernel) (by decide +kernel)
  cases hsame

end FdeEmugl.Fb

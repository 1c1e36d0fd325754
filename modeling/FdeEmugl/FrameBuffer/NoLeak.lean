import FdeEmugl.FrameBuffer.Safety

/-!
# Every color buffer without references is on its way out

A color buffer whose count is 0 can be found again only through the delayed close list, so
it has to stay there until it is removed. `markOpened` takes it off the list; an open or an
attachment then takes a reference, a post does not.
-/

namespace FdeEmugl.Fb

open Runs ColorBuffers Expiry

/-- Color buffers without references, apart from those exempt, are on the list under the time
at which they were closed. -/
structure Listed (host : Host) (exempt : HandleType → Prop) (s : ColorBuffers) : Prop extends Timed host s where
  zero_dead : s.m_colorbuffers 0 = none
  listed : ∀ handle ref, ¬ exempt handle → s.m_colorbuffers handle = some ref → ref.refcount = 0 →
    ⟨ref.closedTs, handle⟩ ∈ s.m_colorBufferDelayedCloseList

section Primitive

variable {host : Host} {exempt exempt' : HandleType → Prop} {s : ColorBuffers} {handle : HandleType}
  {ref : ColorBufferRef}

theorem listed_new (host : Host) : Listed host (fun _ ↦ False) .new where
  toTimed := timed_new host
  zero_dead := rfl
  listed _ _ _ hlive := by cases hlive

section

variable (h : Listed host exempt s)
include h

theorem Listed.handle_ne_zero (hlive : s.m_colorbuffers handle = some ref) : handle ≠ 0 := by
  rintro rfl
  rw [h.zero_dead] at hlive
  cases hlive

/-- A color buffer may change to one that is exempt, is referenced or is on the list. -/
theorem Listed.set (hclock : Monotone host.clock) (hhandle : handle ≠ 0) (ref : ColorBufferRef)
    (hexempt : ∀ other, other ≠ handle → exempt other → exempt' other)
    (hlisted : ¬ exempt' handle → ref.refcount = 0 → ⟨ref.closedTs, handle⟩ ∈ s.m_colorBufferDelayedCloseList) :
    Listed host exempt' (s.set handle ref) where
  toTimed := h.toTimed.weaken hclock (List.Sublist.refl _) le_rfl
  zero_dead := (map_set_of_ne s handle ref hhandle.symm).trans h.zero_dead
  listed other ref' hnot hlive hzero := by
    by_cases heq : other = handle
    · subst heq
      rw [← Option.some.inj ((map_set_self ..).symm.trans hlive)] at hzero ⊢
      exact hlisted hnot hzero
    · rw [map_set_of_ne s handle ref heq] at hlive
      exact h.listed other ref' (fun hex ↦ hnot (hexempt other heq hex)) hlive hzero

theorem Listed.erase (hclock : Monotone host.clock) (handle : HandleType) : Listed host exempt (s.erase handle) where
  toTimed := h.toTimed.weaken hclock (by rw [list_erase]) (by rw [clockReads_erase])
  zero_dead := by
    by_cases heq : (0 : HandleType) = handle
    · rw [heq, map_erase_self]
    · rw [map_erase_of_ne s handle heq, h.zero_dead]
  listed other ref' hnot hlive hzero := by
    have hne : other ≠ handle := by
      rintro rfl
      simp at hlive
    rw [map_erase_of_ne s handle hne] at hlive
    rw [list_erase]
    exact h.listed other ref' hnot hlive hzero

/-- Only the color buffer itself is taken off the list. -/
theorem Listed.eraseDelayed (handle : HandleType) (ts : ℕ) :
    Listed host (fun other ↦ exempt other ∨ other = handle) (s.eraseDelayedCloseColorBufferLocked handle ts) where
  toTimed := h.toTimed.eraseDelayed handle ts
  zero_dead := h.zero_dead
  listed other ref' hnot hlive hzero :=
    mem_clear_of_ne (h.listed other ref' (fun hex ↦ hnot (.inl hex)) hlive hzero) fun heq ↦ hnot (.inr heq)

/-- An entry leaves the list together with its color buffer. -/
theorem Listed.performDelayed (hclock : Monotone host.clock) (forced : Bool) :
    Listed host exempt (s.performDelayedColorBufferCloseLocked host forced) where
  toTimed := by
    refine h.toTimed.weaken hclock (List.dropWhile_sublist _) ?_
    rw [clockReads_performDelayed]
    exact Nat.le_succ _
  zero_dead := by
    refine Option.eq_none_iff_forall_ne_some.mpr fun ref hlive ↦ ?_
    exact h.handle_ne_zero (of_map_performDelayed hlive) rfl
  listed handle ref hnot hlive hzero := by
    obtain ⟨hbefore, hkept⟩ := of_map_foldl_closeDue hlive
    have hmem := h.listed handle ref hnot hbefore hzero
    rw [← List.takeWhile_append_dropWhile (p := fun info : Entry HandleType ↦
      forced || decide (info.time + kColorBufferClosingDelaySec ≤ host.clock s.clockReads))
      (l := s.m_colorBufferDelayedCloseList)] at hmem
    obtain hdue | hmem := List.mem_append.mp hmem
    · exact absurd (hkept _ hdue rfl) (h.handle_ne_zero hbefore)
    · exact hmem

theorem Listed.decrement (hclock : Monotone host.clock) (hhandle : handle ≠ 0)
    (hexempt : ∀ other, other ≠ handle → exempt other → exempt' other)
    (hcount : ¬ exempt' handle → ref.refcount - 1 ≠ 0) : Listed host exempt' (s.decrement handle ref) := by
  have hset : Listed host exempt' (s.set handle { ref with refcount := ref.refcount - 1 }) :=
    h.set hclock hhandle _ hexempt fun hnot hzero ↦ absurd hzero (hcount hnot)
  exact ⟨⟨hset.sorted, hset.past⟩, hset.zero_dead, hset.listed⟩

end

section

variable (h : Listed host (fun other ↦ exempt other ∨ other = handle) s)
include h

/-- A color buffer is put on the list under its time. -/
theorem Listed.schedule (hlive : s.m_colorbuffers handle = some ref)
    (hlast : ∀ entry ∈ s.m_colorBufferDelayedCloseList, entry.time ≤ ref.closedTs)
    (hpast : ref.closedTs ≤ host.clock s.clockReads) :
    Listed host exempt { s with
      m_colorBufferDelayedCloseList := s.m_colorBufferDelayedCloseList ++ [⟨ref.closedTs, handle⟩] } where
  toTimed := h.toTimed.schedule hlast hpast
  zero_dead := h.zero_dead
  listed other ref' hnot hother hzero := by
    by_cases heq : other = handle
    · subst heq
      rw [Option.some.inj (hother.symm.trans hlive)]
      exact List.mem_append_right _ (List.mem_singleton_self _)
    · refine List.mem_append_left _ (h.listed other ref' ?_ hother hzero)
      rintro (hex | hsame)
      · exact hnot hex
      · exact heq hsame

theorem Listed.closeLast (hclock : Monotone host.clock) (hhandle : handle ≠ 0) :
    Listed host exempt (s.closeLast host handle ref false).2 := by
  have htime : Listed host (fun other ↦ exempt other ∨ other = handle) (s.getUnixTime host).2 :=
    ⟨h.toTimed.weaken hclock (List.Sublist.refl _) (Nat.le_succ _), h.zero_dead, h.listed⟩
  have hset := htime.set hclock hhandle { ref with closedTs := host.clock s.clockReads }
    (fun _ _ hex ↦ hex) fun hnot _ ↦ absurd (.inr rfl) hnot
  exact hset.schedule (map_set_self ..) h.past (hclock (Nat.le_succ _))

end

/-- A close that finds the last reference puts the color buffer on the list. -/
theorem Listed.close (h : Listed host exempt s) (hclock : Monotone host.clock)
    (hpipe : host.m_refCountPipeEnabled = false)
    (hdelay : host.m_noDelayCloseColorBufferEnabled = false) (handle : HandleType) :
    Listed host exempt (s.closeColorBufferLocked host handle false).2 := by
  unfold closeColorBufferLocked
  simp only [hpipe, hdelay, Bool.false_eq_true, if_false, Bool.or_self]
  cases hlive : s.m_colorbuffers handle with
  | none => exact h
  | some ref =>
    have hhandle := h.handle_ne_zero hlive
    simp only
    split_ifs with hlast
    · have hdecremented : Listed host (fun other ↦ exempt other ∨ other = handle) (s.decrement handle ref) :=
        h.decrement hclock hhandle (fun _ _ hex ↦ .inl hex) fun hnot ↦ absurd (.inr rfl) hnot
      exact (hdecremented.closeLast hclock hhandle).performDelayed hclock false
    · have hdecremented : Listed host exempt (s.decrement handle ref) :=
        h.decrement hclock hhandle (fun _ _ hex ↦ hex) fun _ ↦ hlast
      exact hdecremented.performDelayed hclock false

end Primitive

/-! ## Actions -/

/-- Actions that leave no color buffer without references off the list: none of them takes a
color buffer at 0 off the list without giving it a reference, or lets a count wrap to 0. -/
def KeepsListed : Action → ColorBuffers → Prop
  | .insert handle, _ => handle ≠ 0
  | .reopen handle, s => ∀ ref ∈ s.m_colorbuffers handle, ref.refcount + 1 ≠ 0
  | .post handle, s => ∀ ref ∈ s.m_colorbuffers handle, ref.refcount ≠ 0
  | .attach old handle, s => ∀ ref ∈ s.m_colorbuffers handle,
    if old = handle then ref.refcount ≠ 0 else ref.refcount + 1 ≠ 0
  | .detach _, _ => True
  | .close _, _ => True
  | .erase _, _ => True

instance decidableKeepsListed : ∀ action s, Decidable (KeepsListed action s)
  | .insert _, _ => inferInstanceAs (Decidable (_ ≠ _))
  | .reopen handle, s => inferInstanceAs (Decidable (∀ ref ∈ s.m_colorbuffers handle, _))
  | .post handle, s => inferInstanceAs (Decidable (∀ ref ∈ s.m_colorbuffers handle, _))
  | .attach _ handle, s => inferInstanceAs (Decidable (∀ ref ∈ s.m_colorbuffers handle, _))
  | .detach _, _ => isTrue trivial
  | .close _, _ => isTrue trivial
  | .erase _, _ => isTrue trivial

section Actions

variable {host : Host} (hclock : Monotone host.clock) {s s' : ColorBuffers} {old handle : HandleType}
  {ref : ColorBufferRef}

include hclock

theorem Listed.markOpened (h : Listed host (fun _ ↦ False) s) (hlive : s.m_colorbuffers handle = some ref)
    {exempt : HandleType → Prop} {refcount : UInt32} (hcount : ¬ exempt handle → refcount ≠ 0) :
    Listed host exempt (s.markOpened handle { ref with refcount := refcount }) := by
  refine (h.eraseDelayed handle ref.closedTs).set hclock (h.handle_ne_zero hlive) _ ?_ ?_
  · rintro other hne (hfalse | heq)
    · exact hfalse.elim
    · exact absurd heq hne
  · exact fun hnot hzero ↦ absurd hzero (hcount hnot)

section

variable (hpipe : host.m_refCountPipeEnabled = false) (hdelay : host.m_noDelayCloseColorBufferEnabled = false)
include hpipe hdelay

/-- While it is off the list, an attached color buffer may be at 0; the reference comes last. -/
theorem Listed.attach (h : Listed host (fun _ ↦ False) s) (hlive : s.m_colorbuffers handle = some ref)
    (hguard : if old = handle then ref.refcount ≠ 0 else ref.refcount + 1 ≠ 0)
    (hattach : s.attach host old handle ref = some s') : Listed host (fun _ ↦ False) s' := by
  have hopened : Listed host (· = handle) (s.markOpened handle ref) :=
    h.markOpened hclock hlive fun hnot ↦ absurd rfl hnot
  have hhandle := h.handle_ne_zero hlive
  obtain ⟨found, hfound, rfl⟩ := Option.map_eq_some_iff.mp hattach
  have hlisted : Listed host (· = handle) ((s.markOpened handle ref).closeOld host old) := by
    unfold closeOld
    split_ifs
    · exact hopened.close hclock hpipe hdelay old
    · exact hopened
  have hcount := count_attached hpipe hfound
  refine hlisted.set hclock hhandle _ (fun other hne heq ↦ hne heq) fun _ hzero ↦ ?_
  by_cases hsame : old = handle
  · rw [if_pos hsame] at hguard
    rw [hcount, if_pos ⟨hsame ▸ hhandle, hsame⟩] at hzero
    exact absurd hzero hguard
  · rw [if_neg hsame] at hguard
    rw [hcount, if_neg fun hboth ↦ hsame hboth.2] at hzero
    exact absurd hzero hguard

theorem Listed.perform (action : Action) (s s' : ColorBuffers) (h : Listed host (fun _ ↦ False) s)
    (hguard : KeepsListed action s) (hperform : perform host action s = some s') :
    Listed host (fun _ ↦ False) s' := by
  cases action with
  | insert handle =>
    obtain ⟨_, rfl⟩ := perform_insert hperform
    exact h.set hclock hguard _ (fun _ _ hfalse ↦ hfalse) fun _ hzero ↦ absurd hzero (by decide)
  | reopen handle =>
    obtain ⟨_, rfl⟩ | ⟨ref, hlive, rfl⟩ := perform_reopen hperform
    · exact h
    · exact h.markOpened hclock hlive fun _ ↦ hguard ref hlive
  | post handle =>
    obtain ⟨_, rfl⟩ | ⟨ref, hlive, rfl⟩ := perform_post hperform
    · exact h
    · exact h.markOpened hclock hlive fun _ ↦ hguard ref hlive
  | attach old handle =>
    obtain ⟨_, rfl⟩ | ⟨ref, hlive, hattach⟩ := perform_attach hperform
    · exact h
    · exact h.attach hclock hpipe hdelay hlive (hguard ref hlive) hattach
  | detach handle => exact Option.some.inj hperform ▸ h.close hclock hpipe hdelay handle
  | close handle => exact Option.some.inj hperform ▸ h.close hclock hpipe hdelay handle
  | erase handle => exact Option.some.inj hperform ▸ h.erase hclock handle

end

end Actions

/-! ## Runs -/

/-- A delayed close a second after its time removes what is on the list. -/
theorem map_performDelayed_of_mem {host : Host} {s : ColorBuffers} {ts : ℕ} {handle : HandleType}
    (hsorted : Sorted s.m_colorBufferDelayedCloseList) (hhandle : handle ≠ 0)
    (hmem : ⟨ts, handle⟩ ∈ s.m_colorBufferDelayedCloseList)
    (hdue : ts + kColorBufferClosingDelaySec ≤ host.clock s.clockReads) :
    (s.performDelayedColorBufferCloseLocked host false).m_colorbuffers handle = none := by
  refine Option.eq_none_iff_forall_ne_some.mpr fun ref hlive ↦ hhandle ?_
  refine (of_map_foldl_closeDue hlive).2 ⟨ts, handle⟩ ?_ rfl
  simp only [Bool.false_or]
  exact mem_takeWhile_due hsorted hmem hdue

/-- As long as the actions keep them listed, color buffers without references are on the delayed
close list, and a delayed close at any time a second or more later removes them. -/
theorem unreferenced_listed_of_keepsListed (host : Host) (hpipe : host.m_refCountPipeEnabled = false)
    (hdelay : host.m_noDelayCloseColorBufferEnabled = false) (hclock : Monotone host.clock)
    (events : List Event) (s : FrameBuffer)
    (hguard : Guarded (step host) (EachAction host KeepsListed) .new events)
    (hrun : run (step host) .new events = some s) :
    ∀ handle ref, s.m_colorbuffers handle = some ref → ref.refcount = 0 →
      ⟨ref.closedTs, handle⟩ ∈ s.colorBuffers.m_colorBufferDelayedCloseList ∧
      ∀ reads, ref.closedTs + kColorBufferClosingDelaySec ≤ host.clock reads →
        ({ s.colorBuffers with clockReads := reads }.performDelayedColorBufferCloseLocked
          host false).m_colorbuffers handle = none := by
  have hlisted : Listed host (fun _ ↦ False) s.colorBuffers :=
    invariant_of_eachAction hpipe
      (fun action cbs cbs' ↦ Listed.perform hclock hpipe hdelay action cbs cbs') (listed_new host) hguard hrun
  intro handle ref hlive hzero
  have hmem := hlisted.listed handle ref not_false hlive hzero
  exact ⟨hmem, fun reads hdue ↦
    map_performDelayed_of_mem hlisted.sorted (hlisted.handle_ne_zero hlive) hmem hdue⟩

/-- A color buffer is opened, posted while it is referenced and closed as often as it was opened. -/
theorem unreferenced_listed_closed :
    ∃ s, run (step .slow) .new [.createColorBuffer 1 true, .openColorBuffer 1 1, .closeColorBuffer 1 1,
        .postImpl true 1, .closeColorBuffer 1 1] = some s ∧
      s.m_colorbuffers 1 = some ⟨0, true, 0⟩ ∧
      ∀ handle ref, s.m_colorbuffers handle = some ref → ref.refcount = 0 →
        ⟨ref.closedTs, handle⟩ ∈ s.colorBuffers.m_colorBufferDelayedCloseList ∧
        ∀ reads, ref.closedTs + kColorBufferClosingDelaySec ≤ Host.slow.clock reads →
          ({ s.colorBuffers with clockReads := reads }.performDelayedColorBufferCloseLocked
            .slow false).m_colorbuffers handle = none := by
  have hfinal : (run (step .slow) .new [.createColorBuffer 1 true, .openColorBuffer 1 1,
      .closeColorBuffer 1 1, .postImpl true 1, .closeColorBuffer 1 1]).map (·.m_colorbuffers 1) =
        some (some ⟨0, true, 0⟩) := by
    decide +kernel
  obtain ⟨s, hrun, hone⟩ := Option.map_eq_some_iff.mp hfinal
  exact ⟨s, hrun, hone, unreferenced_listed_of_keepsListed .slow rfl rfl monotone_clock_slow _ s
    (by decide +kernel) hrun⟩

/-- Posting a color buffer that the guest has just closed: it stays, without a reference and off
the list, and not even a forced delayed close removes it. -/
theorem posted_after_close_leaks :
    ∃ s, run (step .slow) .new [.createColorBuffer 1 true, .closeColorBuffer 1 1, .postImpl true 1] = some s ∧
      s.m_colorbuffers 1 = some ⟨0, true, 0⟩ ∧ s.colorBuffers.Unscheduled 1 ∧
      (s.colorBuffers.performDelayedColorBufferCloseLocked .slow true).m_colorbuffers 1 =
        some ⟨0, true, 0⟩ :=
  ⟨_, rfl, by decide +kernel, by decide +kernel, by decide +kernel⟩

end FdeEmugl.Fb

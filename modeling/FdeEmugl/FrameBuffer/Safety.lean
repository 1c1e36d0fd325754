import FdeEmugl.FrameBuffer.Actions

/-!
# No color buffer is removed while it is referenced

The delayed close list names a color buffer by its handle only, so whatever gives the
color buffer a reference again has to take its entry off the list. The invariant ties the
list, the counts and the times together; the guard names the actions that break it.
-/

namespace FdeEmugl.Fb

open Runs ColorBuffers Expiry

namespace ColorBuffers

def Unscheduled (handle : HandleType) (s : ColorBuffers) : Prop :=
  ∀ entry ∈ s.m_colorBufferDelayedCloseList, entry.key ≠ handle

instance decidableUnscheduled (handle : HandleType) (s : ColorBuffers) : Decidable (s.Unscheduled handle) :=
  inferInstanceAs (Decidable (∀ entry ∈ s.m_colorBufferDelayedCloseList, entry.key ≠ handle))

end ColorBuffers

/-- The delayed close list is ordered by time and does not reach into the future. -/
structure Timed (host : Host) (s : ColorBuffers) : Prop where
  sorted : Sorted s.m_colorBufferDelayedCloseList
  past : ∀ entry ∈ s.m_colorBufferDelayedCloseList, entry.time ≤ host.clock s.clockReads

/-- The delayed close list is in step with the counts. -/
structure Safe (host : Host) (s : ColorBuffers) : Prop extends Timed host s where
  scheduled : ∀ entry ∈ s.m_colorBufferDelayedCloseList, entry.key ≠ 0 →
    ∀ ref, s.m_colorbuffers entry.key = some ref → ref.refcount = 0 ∧ ref.closedTs = entry.time
  single : s.m_colorBufferDelayedCloseList.Pairwise fun first second ↦
    first.key = second.key → first.key = 0 ∨ s.m_colorbuffers first.key = none
  erased : ∀ handle refcount, .erased handle refcount ∈ s.trace → refcount = 0

section Time

variable {host : Host} {s s' : ColorBuffers}

theorem timed_new (host : Host) : Timed host .new where
  sorted := .nil
  past _ hmem := by cases hmem

/-- Entries may leave the list and time may pass. -/
theorem Timed.weaken (h : Timed host s) (hclock : Monotone host.clock)
    (hlist : s'.m_colorBufferDelayedCloseList.Sublist s.m_colorBufferDelayedCloseList)
    (hreads : s.clockReads ≤ s'.clockReads) : Timed host s' where
  sorted := h.sorted.sublist hlist
  past entry hmem := (h.past entry (hlist.subset hmem)).trans (hclock hreads)

theorem Timed.eraseDelayed (h : Timed host s) (handle : HandleType) (ts : ℕ) :
    Timed host (s.eraseDelayedCloseColorBufferLocked handle ts) where
  sorted := (blanked_clear 0 handle ts _).sorted h.sorted
  past entry hmem := by
    obtain ⟨origin, horigin, htime, _⟩ := (blanked_clear 0 handle ts _).exists_origin hmem
    rw [htime]
    exact h.past origin horigin

/-- An entry is put on the list with the latest time. -/
theorem Timed.schedule (h : Timed host s) {last : Entry HandleType}
    (hlast : ∀ entry ∈ s.m_colorBufferDelayedCloseList, entry.time ≤ last.time)
    (hpast : last.time ≤ host.clock s.clockReads) :
    Timed host { s with m_colorBufferDelayedCloseList := s.m_colorBufferDelayedCloseList ++ [last] } where
  sorted := by
    refine List.pairwise_append.mpr ⟨h.sorted, List.pairwise_singleton .., fun entry hmem other hend ↦ ?_⟩
    rw [List.mem_singleton.mp hend]
    exact hlast entry hmem
  past entry hmem := by
    obtain hmem | hend := List.mem_append.mp hmem
    · exact h.past entry hmem
    · rw [List.mem_singleton.mp hend]
      exact hpast

end Time

section Primitive

variable {host : Host} {s s' : ColorBuffers} {handle : HandleType} {ref : ColorBufferRef}

theorem safe_new (host : Host) : Safe host .new where
  toTimed := timed_new host
  scheduled _ hmem := by cases hmem
  single := .nil
  erased _ _ hmem := by cases hmem

section

variable (h : Safe host s) (hclock : Monotone host.clock)
include h hclock

/-- Entries may leave the list, time may pass, and what is still on the list may die. -/
theorem Safe.weaken (hlist : s'.m_colorBufferDelayedCloseList.Sublist s.m_colorBufferDelayedCloseList)
    (hreads : s.clockReads ≤ s'.clockReads)
    (hmap : ∀ entry ∈ s'.m_colorBufferDelayedCloseList, entry.key ≠ 0 → s'.m_colorbuffers entry.key = s.m_colorbuffers entry.key ∨ s'.m_colorbuffers entry.key = none)
    (herased : ∀ handle refcount, .erased handle refcount ∈ s'.trace → refcount = 0) : Safe host s' where
  toTimed := h.toTimed.weaken hclock hlist hreads
  scheduled entry hmem hkey ref hlive := by
    obtain hsame | hdead := hmap entry hmem hkey
    · exact h.scheduled entry (hlist.subset hmem) hkey ref (hsame.symm.trans hlive)
    · rw [hdead] at hlive
      cases hlive
  single := by
    refine (h.single.sublist hlist).imp_of_mem fun {first second} hfirst _ hpair hkey ↦ ?_
    by_cases hzero : first.key = 0
    · exact .inl hzero
    · obtain hsame | hdead := hmap first hfirst hzero
      · exact (hpair hkey).imp_right hsame.trans
      · exact .inr hdead
  erased := herased

/-- A color buffer that is not on the list may change. -/
theorem Safe.set (hfree : handle = 0 ∨ s.Unscheduled handle) (ref : ColorBufferRef) :
    Safe host (s.set handle ref) := by
  refine h.weaken hclock (List.Sublist.refl _) le_rfl (fun entry hmem hkey ↦ .inl ?_) h.erased
  refine map_set_of_ne s handle ref fun heq ↦ ?_
  exact hfree.elim (fun hzero ↦ hkey (heq.trans hzero)) fun hnot ↦ hnot entry hmem heq

theorem Safe.decrement (hfree : handle = 0 ∨ s.Unscheduled handle) (ref : ColorBufferRef) :
    Safe host (s.decrement handle ref) := by
  have hset := h.set hclock hfree { ref with refcount := ref.refcount - 1 }
  refine hset.weaken hclock (List.Sublist.refl _) le_rfl (fun _ _ _ ↦ .inl rfl) fun handle refcount hmem ↦ ?_
  obtain heq | hmem := List.mem_cons.mp hmem
  · cases heq
  · exact h.erased handle refcount hmem

theorem Safe.getUnixTime : Safe host (s.getUnixTime host).2 :=
  h.weaken hclock (List.Sublist.refl _) (Nat.le_succ _) (fun _ _ _ ↦ .inl rfl) h.erased

/-- A color buffer without references may be removed. -/
theorem Safe.erase (hzero : ∀ ref, s.m_colorbuffers handle = some ref → ref.refcount = 0) :
    Safe host (s.erase handle) := by
  refine h.weaken hclock ?_ ?_ (fun entry _ _ ↦ ?_) fun other refcount hmem ↦ ?_
  · rw [list_erase]
  · rw [clockReads_erase]
  · by_cases heq : entry.key = handle
    · rw [heq]
      exact .inr (map_erase_self s handle)
    · exact .inl (map_erase_of_ne s handle heq)
  · unfold ColorBuffers.erase at hmem
    split at hmem
    · exact h.erased other refcount hmem
    next ref hlive =>
    obtain heq | hmem := List.mem_cons.mp hmem
    · rw [(Trace.erased.inj heq).2]
      exact hzero ref hlive
    · exact h.erased other refcount hmem

end

theorem Safe.eraseDelayed (h : Safe host s) (handle : HandleType) (ts : ℕ) :
    Safe host (s.eraseDelayedCloseColorBufferLocked handle ts) where
  toTimed := h.toTimed.eraseDelayed handle ts
  scheduled entry hmem hkey := by
    obtain ⟨origin, horigin, htime, hsame⟩ := (blanked_clear 0 handle ts _).exists_origin hmem
    have hsame := hsame.resolve_right hkey
    rw [htime, hsame]
    exact h.scheduled origin horigin (hsame ▸ hkey)
  single := (blanked_clear 0 handle ts _).pairwise
    (fun key ↦ key = 0 ∨ s.m_colorbuffers key = none) (.inl rfl) h.single
  erased := h.erased

/-- The entry of a live color buffer is found through its time. -/
theorem Safe.unscheduled_eraseDelayed (h : Safe host s) (hlive : s.m_colorbuffers handle = some ref)
    (hhandle : handle ≠ 0) :
    (s.eraseDelayedCloseColorBufferLocked handle ref.closedTs).Unscheduled handle := by
  refine key_ne_of_mem_clear hhandle.symm h.sorted ⟨fun entry hmem hkey ↦ ?_, ?_⟩
  · exact ((h.scheduled entry hmem (hkey ▸ hhandle) ref (hkey ▸ hlive)).2).symm
  · refine h.single.imp fun {first second} hpair hboth ↦ ?_
    obtain hzero | hdead := hpair (hboth.1.trans hboth.2.symm)
    · exact hhandle (hboth.1.symm.trans hzero)
    · rw [hboth.1, hlive] at hdead
      cases hdead

/-- A color buffer whose count has reached 0 is put on the list with the latest time. -/
theorem Safe.schedule (h : Safe host s) (hfree : handle = 0 ∨ s.Unscheduled handle)
    (hlive : s.m_colorbuffers handle = some ref) (hzero : ref.refcount = 0)
    (hlast : ∀ entry ∈ s.m_colorBufferDelayedCloseList, entry.time ≤ ref.closedTs)
    (hpast : ref.closedTs ≤ host.clock s.clockReads) :
    Safe host { s with
      m_colorBufferDelayedCloseList := s.m_colorBufferDelayedCloseList ++ [⟨ref.closedTs, handle⟩] } where
  toTimed := h.toTimed.schedule hlast hpast
  scheduled entry hmem hkey ref' hlive' := by
    obtain hmem | hend := List.mem_append.mp hmem
    · exact h.scheduled entry hmem hkey ref' hlive'
    · rw [List.mem_singleton.mp hend] at hlive' ⊢
      rw [← Option.some.inj (hlive.symm.trans hlive')]
      exact ⟨hzero, rfl⟩
  single := by
    refine List.pairwise_append.mpr ⟨h.single, List.pairwise_singleton .., fun entry hmem last hend hkey ↦ ?_⟩
    rw [List.mem_singleton.mp hend] at hkey
    exact .inl (hfree.elim hkey.trans fun hnot ↦ absurd hkey (hnot entry hmem))
  erased := h.erased

end Primitive

section Composite

variable {host : Host} (hclock : Monotone host.clock) {s : ColorBuffers} {handle : HandleType} {ref : ColorBufferRef}

include hclock

section

variable (h : Safe host s)
include h

/-- Marking a color buffer as opened takes it off the list. -/
theorem Safe.markOpened (hlive : s.m_colorbuffers handle = some ref) (refcount : UInt32) :
    Safe host (s.markOpened handle { ref with refcount := refcount }) ∧
      (handle = 0 ∨ (s.markOpened handle { ref with refcount := refcount }).Unscheduled handle) := by
  have hfree : handle = 0 ∨ (s.eraseDelayedCloseColorBufferLocked handle ref.closedTs).Unscheduled handle :=
    or_iff_not_imp_left.mpr fun hhandle ↦ h.unscheduled_eraseDelayed hlive hhandle
  exact ⟨(h.eraseDelayed handle ref.closedTs).set hclock hfree _, hfree⟩

theorem Safe.closeLast (hfree : handle = 0 ∨ s.Unscheduled handle)
    (hlive : s.m_colorbuffers handle = some ref) (hzero : ref.refcount = 0) (forced : Bool) :
    Safe host (s.closeLast host handle ref forced).2 := by
  unfold ColorBuffers.closeLast
  split_ifs
  · refine (h.eraseDelayed handle ref.closedTs).erase hclock fun ref' hlive' ↦ ?_
    rw [← Option.some.inj (hlive.symm.trans hlive')]
    exact hzero
  · exact ((h.getUnixTime hclock).set hclock hfree _).schedule hfree (map_set_self ..) hzero
      (fun entry hmem ↦ h.past entry hmem) (hclock (Nat.le_succ _))

/-- The loop removes only color buffers that the list names. -/
theorem Safe.foldl_closeDue (infos : List (Entry HandleType))
    (hinfos : ∀ info ∈ infos, info ∈ s.m_colorBufferDelayedCloseList) :
    Safe host (infos.foldl closeDue s) ∧
      (infos.foldl closeDue s).m_colorBufferDelayedCloseList = s.m_colorBufferDelayedCloseList := by
  induction infos generalizing s with
  | nil => exact ⟨h, rfl⟩
  | cons info infos ih =>
    have hinfo := hinfos info List.mem_cons_self
    have hlist : (s.closeDue info).m_colorBufferDelayedCloseList = s.m_colorBufferDelayedCloseList := by
      unfold closeDue
      split_ifs <;> simp
    have hsafe : Safe host (s.closeDue info) := by
      unfold closeDue
      split_ifs with hkey
      · exact h.erase hclock fun ref hlive ↦ (h.scheduled info hinfo hkey ref hlive).1
      · exact h
    obtain ⟨hfold, hfoldList⟩ := ih hsafe fun other hmem ↦ by
      rw [hlist]
      exact hinfos other (List.mem_cons_of_mem info hmem)
    exact ⟨hfold, hfoldList.trans hlist⟩

theorem Safe.performDelayed (forced : Bool) : Safe host (s.performDelayedColorBufferCloseLocked host forced) := by
  unfold performDelayedColorBufferCloseLocked
  simp only
  obtain ⟨hfold, hlist⟩ := (h.getUnixTime hclock).foldl_closeDue hclock
    (s.m_colorBufferDelayedCloseList.takeWhile fun info ↦
      forced || decide (info.time + kColorBufferClosingDelaySec ≤ host.clock s.clockReads))
    fun info hmem ↦ (List.takeWhile_sublist _).subset hmem
  refine hfold.weaken hclock ?_ le_rfl (fun _ _ _ ↦ .inl rfl) hfold.erased
  rw [hlist]
  exact List.dropWhile_sublist _

/-- Closing keeps the list in step unless it finds the color buffer on the list already. -/
theorem Safe.close (hfree : handle = 0 ∨ s.m_colorbuffers handle = none ∨ s.Unscheduled handle)
    (forced : Bool) : Safe host (s.closeColorBufferLocked host handle forced).2 := by
  unfold closeColorBufferLocked
  split_ifs
  · exact h
  cases hlive : s.m_colorbuffers handle with
  | none => exact h
  | some ref =>
    have hfree : handle = 0 ∨ s.Unscheduled handle := by
      simpa [hlive] using hfree
    have hdecremented := h.decrement hclock hfree ref
    simp only
    split_ifs with hlast
    · refine Safe.performDelayed hclock ?_ false
      exact hdecremented.closeLast hclock hfree (map_decrement_self s handle ref) hlast _
    · exact hdecremented.performDelayed hclock false

end

end Composite

/-! ## What closing puts on the list -/

section List

variable {host : Host} {s : ColorBuffers} {handle other : HandleType} {ref : ColorBufferRef}

theorem mem_of_mem_performDelayed {forced : Bool} {entry : Entry HandleType}
    (hmem : entry ∈ (s.performDelayedColorBufferCloseLocked host forced).m_colorBufferDelayedCloseList) :
    entry ∈ s.m_colorBufferDelayedCloseList :=
  (List.dropWhile_sublist _).subset hmem

theorem key_of_mem_eraseDelayed {ts : ℕ} {entry : Entry HandleType}
    (hmem : entry ∈ (s.eraseDelayedCloseColorBufferLocked handle ts).m_colorBufferDelayedCloseList) :
    entry.key = 0 ∨ ∃ origin ∈ s.m_colorBufferDelayedCloseList, entry.key = origin.key := by
  obtain ⟨origin, horigin, _, hkey | hkey⟩ := (blanked_clear 0 handle ts _).exists_origin hmem
  · exact .inr ⟨origin, horigin, hkey⟩
  · exact .inl hkey

section

variable (h : s.Unscheduled other) (hother : other ≠ 0)
include h hother

theorem ColorBuffers.Unscheduled.eraseDelayed (handle : HandleType) (ts : ℕ) :
    (s.eraseDelayedCloseColorBufferLocked handle ts).Unscheduled other := by
  intro entry hmem hkey
  obtain hzero | ⟨origin, horigin, hsame⟩ := key_of_mem_eraseDelayed hmem
  · exact hother (hkey.symm.trans hzero)
  · exact h origin horigin (hsame.symm.trans hkey)

theorem ColorBuffers.Unscheduled.closeLast (hne : other ≠ handle) (forced : Bool) :
    (s.closeLast host handle ref forced).2.Unscheduled other := by
  unfold ColorBuffers.closeLast
  split_ifs
  · intro entry hmem
    rw [list_erase] at hmem
    exact h.eraseDelayed hother handle ref.closedTs entry hmem
  · intro entry hmem
    obtain hmem | hend := List.mem_append.mp hmem
    · exact h entry hmem
    · rw [List.mem_singleton.mp hend]
      exact hne.symm

/-- A close schedules at most the color buffer it closes, and that only when its last reference goes. -/
theorem ColorBuffers.Unscheduled.close
    (hlast : other ≠ handle ∨ ∀ ref, s.m_colorbuffers handle = some ref → ref.refcount ≠ 1) (forced : Bool) :
    (s.closeColorBufferLocked host handle forced).2.Unscheduled other := by
  unfold closeColorBufferLocked
  split_ifs
  · exact h
  cases hlive : s.m_colorbuffers handle with
  | none => exact h
  | some ref =>
    simp only
    intro entry hmem
    split_ifs at hmem with hzero
    · have hne : other ≠ handle := by
        refine hlast.resolve_right fun hnot ↦ hnot ref hlive ?_
        rw [← UInt32.sub_add_cancel ref.refcount 1, hzero]
        rfl
      have hdecremented : (s.decrement handle ref).Unscheduled other := h
      exact hdecremented.closeLast hother hne _ entry (mem_of_mem_performDelayed hmem)
    · exact h entry (mem_of_mem_performDelayed hmem)

end

end List

/-! ## Actions -/

/-- The close finds nothing on the list. -/
def Closable (handle : HandleType) (s : ColorBuffers) : Prop :=
  handle = 0 ∨ s.m_colorbuffers handle = none ∨ s.Unscheduled handle

instance decidableClosable (handle : HandleType) (s : ColorBuffers) : Decidable (Closable handle s) :=
  inferInstanceAs (Decidable (_ ∨ _ ∨ _))

/-- Actions after which every color buffer on the list is without references: none of them
closes a color buffer that is on the list, gives it back its last reference by a close
in between, creates one whose handle is on the list, or removes one that is referenced. -/
def KeepsInStep : Action → ColorBuffers → Prop
  | .insert handle, s => handle = 0 ∨ s.Unscheduled handle
  | .reopen _, _ => True
  | .post _, _ => True
  | .attach old handle, s => ∀ ref ∈ s.m_colorbuffers handle, old ≠ 0 →
    if old = handle then ref.refcount ≠ 1 else Closable old s
  | .detach handle, s => Closable handle s
  | .close handle, s => Closable handle s
  | .erase handle, s => ∀ ref ∈ s.m_colorbuffers handle, ref.refcount = 0

instance decidableKeepsInStep : ∀ action s, Decidable (KeepsInStep action s)
  | .insert _, _ => inferInstanceAs (Decidable (_ ∨ _))
  | .reopen _, _ => isTrue trivial
  | .post _, _ => isTrue trivial
  | .attach _ handle, s => inferInstanceAs (Decidable (∀ ref ∈ s.m_colorbuffers handle, _ → _))
  | .detach handle, s => inferInstanceAs (Decidable (Closable handle s))
  | .close handle, s => inferInstanceAs (Decidable (Closable handle s))
  | .erase handle, s => inferInstanceAs (Decidable (∀ ref ∈ s.m_colorbuffers handle, _))

section Actions

variable {host : Host} (hclock : Monotone host.clock)

include hclock

theorem Safe.attach {s s' : ColorBuffers} {old handle : HandleType} {ref : ColorBufferRef} (h : Safe host s)
    (hlive : s.m_colorbuffers handle = some ref)
    (hguard : old ≠ 0 → if old = handle then ref.refcount ≠ 1 else Closable old s)
    (hattach : s.attach host old handle ref = some s') : Safe host s' := by
  obtain ⟨hopened, hfree⟩ := h.markOpened hclock hlive ref.refcount
  obtain ⟨found, hfound, rfl⟩ := Option.map_eq_some_iff.mp hattach
  unfold closeOld
  split_ifs with hold
  swap
  · exact hopened.set hclock hfree _
  have hold' := hguard hold
  split_ifs at hold' with hsame
  · subst hsame
    have hfree := hfree.resolve_left hold
    refine Safe.set (hopened.close hclock (.inr (.inr hfree)) false) hclock (.inr ?_) _
    refine hfree.close hold (.inr fun ref' hlive' ↦ ?_) false
    rw [← Option.some.inj ((map_set_self ..).symm.trans hlive')]
    exact hold'
  · have hclosable : Closable old (s.markOpened handle ref) := by
      obtain hzero | hdead | hnot := hold'
      · exact .inl hzero
      · exact .inr (.inl ((map_set_of_ne _ _ _ hsame).trans hdead))
      · exact .inr (.inr (hnot.eraseDelayed hold handle ref.closedTs))
    refine Safe.set (hopened.close hclock hclosable false) hclock ?_ _
    by_cases hzero : handle = 0
    · exact .inl hzero
    · exact .inr ((hfree.resolve_left hzero).close hzero (.inl (Ne.symm hsame)) false)

theorem Safe.perform (action : Action) (s s' : ColorBuffers) (h : Safe host s) (hguard : KeepsInStep action s)
    (hperform : perform host action s = some s') : Safe host s' := by
  cases action with
  | insert handle =>
    obtain ⟨_, rfl⟩ := perform_insert hperform
    exact h.set hclock hguard _
  | reopen handle =>
    obtain ⟨_, rfl⟩ | ⟨ref, hlive, rfl⟩ := perform_reopen hperform
    · exact h
    · exact (h.markOpened hclock hlive (ref.refcount + 1)).1
  | post handle =>
    obtain ⟨_, rfl⟩ | ⟨ref, hlive, rfl⟩ := perform_post hperform
    · exact h
    · exact (h.markOpened hclock hlive ref.refcount).1
  | attach old handle =>
    obtain ⟨_, rfl⟩ | ⟨ref, hlive, hattach⟩ := perform_attach hperform
    · exact h
    · exact h.attach hclock hlive (hguard ref hlive) hattach
  | detach handle => exact Option.some.inj hperform ▸ h.close hclock hguard false
  | close handle => exact Option.some.inj hperform ▸ h.close hclock hguard false
  | erase handle => exact Option.some.inj hperform ▸ h.erase hclock hguard

end Actions

/-! ## Runs -/

/-- What the delayed close removes was on the list. -/
theorem exists_entry_of_foldl_closeDue {infos : List (Entry HandleType)} {s : ColorBuffers}
    {handle : HandleType} (hdead : (infos.foldl closeDue s).m_colorbuffers handle = none) :
    s.m_colorbuffers handle = none ∨ ∃ info ∈ infos, info.key = handle ∧ info.key ≠ 0 := by
  induction infos generalizing s with
  | nil => exact .inl hdead
  | cons info infos ih =>
    obtain hdead | ⟨other, hmem, hother⟩ := ih hdead
    · by_cases hinfo : info.key = handle ∧ info.key ≠ 0
      · exact .inr ⟨info, List.mem_cons_self, hinfo⟩
      · left
        unfold closeDue at hdead
        split_ifs at hdead with hkey
        · rwa [map_erase_of_ne s info.key fun heq ↦ hinfo ⟨heq.symm, hkey⟩] at hdead
        · exact hdead
    · exact .inr ⟨other, List.mem_cons_of_mem info hmem, hother⟩

/-- As long as the actions keep the list in step, no color buffer is removed while it is referenced,
and the delayed close is about to remove none that is. -/
theorem erased_unreferenced_of_keepsInStep (host : Host) (hpipe : host.m_refCountPipeEnabled = false)
    (hclock : Monotone host.clock) (events : List Event) (s : FrameBuffer)
    (hguard : Guarded (step host) (EachAction host KeepsInStep) .new events)
    (hrun : run (step host) .new events = some s) :
    (∀ handle refcount, .erased handle refcount ∈ s.colorBuffers.trace → refcount = 0) ∧
      (∀ entry ∈ s.colorBuffers.m_colorBufferDelayedCloseList, entry.key ≠ 0 →
        ∀ ref, s.m_colorbuffers entry.key = some ref → ref.refcount = 0) ∧
      ∀ forced handle ref, s.m_colorbuffers handle = some ref →
        (s.colorBuffers.performDelayedColorBufferCloseLocked host forced).m_colorbuffers handle = none →
        ref.refcount = 0 := by
  have hsafe : Safe host s.colorBuffers :=
    invariant_of_eachAction hpipe (fun action cbs cbs' ↦ Safe.perform hclock action cbs cbs') (safe_new host)
      hguard hrun
  refine ⟨hsafe.erased, fun entry hmem hkey ref hlive ↦ (hsafe.scheduled entry hmem hkey ref hlive).1, ?_⟩
  intro forced handle ref hlive hremoved
  obtain hdead | ⟨info, hmem, rfl, hkey⟩ := exists_entry_of_foldl_closeDue hremoved
  · exact absurd (hlive.symm.trans hdead) (by simp)
  · exact (hsafe.scheduled info ((List.takeWhile_sublist _).subset hmem) hkey ref hlive).1

theorem monotone_clock_slow : Monotone Host.slow.clock := fun _ _ hle ↦ Nat.div_le_div_right hle

/-- A color buffer is closed, opened again in time and closed for good, while another is removed. -/
theorem erased_unreferenced_reopened :
    ∃ s, run (step .slow) .new [.createColorBuffer 1 true, .closeColorBuffer 1 1, .openColorBuffer 1 1,
        .createColorBuffer 1 true, .closeColorBuffer 1 2, .closeColorBuffer 1 1] = some s ∧
      (∀ handle refcount, .erased handle refcount ∈ s.colorBuffers.trace → refcount = 0) ∧
      (∀ entry ∈ s.colorBuffers.m_colorBufferDelayedCloseList, entry.key ≠ 0 →
        ∀ ref, s.m_colorbuffers entry.key = some ref → ref.refcount = 0) ∧
      ∀ forced handle ref, s.m_colorbuffers handle = some ref →
        (s.colorBuffers.performDelayedColorBufferCloseLocked .slow forced).m_colorbuffers handle = none →
        ref.refcount = 0 := by
  obtain ⟨s, hrun⟩ := Option.isSome_iff_exists.mp (show (run (step .slow) .new
    [.createColorBuffer 1 true, .closeColorBuffer 1 1, .openColorBuffer 1 1, .createColorBuffer 1 true,
      .closeColorBuffer 1 2, .closeColorBuffer 1 1]).isSome = true by decide +kernel)
  exact ⟨s, hrun, erased_unreferenced_of_keepsInStep .slow rfl monotone_clock_slow _ s (by decide +kernel) hrun⟩

/-- The guest closes a color buffer that is attached, attaches it again, and closes another one a
second later: the first is removed while the window surface has a reference to it. -/
theorem erased_while_attached :
    Monotone Host.slow.clock ∧
    ∃ s, run (step .slow) .new [.createWindowSurface 1 true true, .createColorBuffer 1 true,
        .setWindowSurfaceColorBuffer 1 2, .closeColorBuffer 1 2, .setWindowSurfaceColorBuffer 1 2,
        .createColorBuffer 1 true, .closeColorBuffer 1 3] = some s ∧
      .erased 2 1 ∈ s.colorBuffers.trace ∧ (s.m_windows 1).map (·.attached) = some 2 :=
  ⟨monotone_clock_slow, _, rfl, by decide +kernel, by decide +kernel⟩

end FdeEmugl.Fb

import FdeEmugl.FrameBuffer.Actions
import FdeEmugl.FrameBuffer.Handles

/-!
# Every reference is dropped once

The count of a color buffer is made of one reference for every window surface it is attached
to and one for every creation and open that has not been closed. The second part is
its credit, kept beside the program. A window surface that goes away drops the
reference of its attachment and then closes every color buffer that was ever attached to it
once more; those closes, the guest's and those at the end of a process have to be
covered by the credit.
-/

namespace FdeEmugl.Fb

open Runs ColorBuffers
open FrameBuffer
open Option (bind_eq_some_iff map_eq_some_iff)

/-- Every count is what is due, and no close has found a count of 0. -/
structure Balanced (due : HandleType → ℕ) (s : ColorBuffers) : Prop where
  zero_dead : s.m_colorbuffers 0 = none
  count : ∀ handle ref, s.m_colorbuffers handle = some ref → ref.refcount.toNat = due handle
  decremented : ∀ handle refcount, .decremented handle refcount ∈ s.trace → refcount ≠ 0

section Counting

theorem toNat_add_one {count : UInt32} (h : count + 1 ≠ 0) : (count + 1).toNat = count.toNat + 1 := by
  have hlt := UInt32.toNat_lt count
  have hne : (count + 1).toNat ≠ 0 := fun hzero ↦ h (UInt32.toNat_inj.mp hzero)
  rw [UInt32.toNat_add] at hne ⊢
  simp only [UInt32.toNat_one] at hne ⊢
  omega

theorem toNat_sub_one {count : UInt32} {rest : ℕ} (h : count.toNat = rest + 1) : (count - 1).toNat = rest := by
  have hle : (1 : UInt32) ≤ count := by
    rw [UInt32.le_iff_toNat_le, UInt32.toNat_one]
    omega
  rw [UInt32.toNat_sub_of_le _ _ hle, UInt32.toNat_one]
  omega

end Counting

section Primitive

variable {host : Host} {due due' : HandleType → ℕ} {s s' : ColorBuffers} {old handle : HandleType}
  {ref : ColorBufferRef}

theorem balanced_new (due : HandleType → ℕ) : Balanced due .new where
  zero_dead := rfl
  count _ _ hlive := by cases hlive
  decremented _ _ hmem := by cases hmem

section

variable (h : Balanced due s)
include h

theorem Balanced.handle_ne_zero (hlive : s.m_colorbuffers handle = some ref) : handle ≠ 0 := by
  rintro rfl
  rw [h.zero_dead] at hlive
  cases hlive

/-- What is due may be written in another way. -/
theorem Balanced.congr (hdue : ∀ other, other ≠ 0 → due' other = due other) : Balanced due' s where
  zero_dead := h.zero_dead
  count other ref hlive := (h.count other ref hlive).trans (hdue other (h.handle_ne_zero hlive)).symm
  decremented := h.decremented

theorem Balanced.set (hhandle : handle ≠ 0) (hcount : ref.refcount.toNat = due' handle)
    (hothers : ∀ other, other ≠ 0 → other ≠ handle → due' other = due other) :
    Balanced due' (s.set handle ref) where
  zero_dead := (map_set_of_ne s handle ref hhandle.symm).trans h.zero_dead
  count other ref' hlive := by
    by_cases heq : other = handle
    · rw [heq, map_set_self] at hlive
      rw [heq, ← Option.some.inj hlive, hcount]
    · rw [map_set_of_ne s handle ref heq] at hlive
      rw [hothers other (h.handle_ne_zero hlive) heq]
      exact h.count other ref' hlive
  decremented := h.decremented

theorem Balanced.eraseDelayed (handle : HandleType) (ts : ℕ) :
    Balanced due (s.eraseDelayedCloseColorBufferLocked handle ts) where
  zero_dead := h.zero_dead
  count := h.count
  decremented := h.decremented

theorem Balanced.markOpened (hlive : s.m_colorbuffers handle = some ref) {refcount : UInt32}
    (hcount : refcount.toNat = due' handle)
    (hothers : ∀ other, other ≠ 0 → other ≠ handle → due' other = due other) :
    Balanced due' (s.markOpened handle { ref with refcount := refcount }) :=
  (h.eraseDelayed handle ref.closedTs).set (h.handle_ne_zero hlive) hcount hothers

theorem Balanced.erase (handle : HandleType) : Balanced due (s.erase handle) where
  zero_dead := by
    by_cases heq : (0 : HandleType) = handle
    · rw [heq, map_erase_self]
    · rw [map_erase_of_ne s handle heq, h.zero_dead]
  count other ref hlive := by
    have hne : other ≠ handle := by
      rintro rfl
      simp at hlive
    rw [map_erase_of_ne s handle hne] at hlive
    exact h.count other ref hlive
  decremented other refcount hmem := h.decremented other refcount (decremented_of_erase hmem)

/-- A close drops one of the references that are due. -/
theorem Balanced.close (hpipe : host.m_refCountPipeEnabled = false)
    (hdue : (s.m_colorbuffers handle).isSome = true → due handle = due' handle + 1)
    (hothers : ∀ other, other ≠ 0 → other ≠ handle → due' other = due other) (forced : Bool) :
    Balanced due' (s.closeColorBufferLocked host handle forced).2 where
  zero_dead := by
    refine Option.eq_none_iff_forall_ne_some.mpr fun ref hlive ↦ ?_
    obtain ⟨rfl, found, hfound, _⟩ | ⟨_, hbefore⟩ := of_map_close hpipe hlive
    · exact h.handle_ne_zero hfound rfl
    · exact h.handle_ne_zero hbefore rfl
  count other ref hlive := by
    obtain ⟨rfl, found, hfound, hcount⟩ | ⟨hne, hbefore⟩ := of_map_close hpipe hlive
    · rw [hcount]
      exact toNat_sub_one ((h.count other found hfound).trans (hdue (by simp [hfound])))
    · rw [hothers other (h.handle_ne_zero hbefore) hne]
      exact h.count other ref hbefore
  decremented other refcount hmem := by
    obtain hmem | ⟨ref, hlive, rfl⟩ := decremented_of_close hmem
    · exact h.decremented other refcount hmem
    · intro hzero
      have hcount := h.count handle ref hlive
      rw [hzero, hdue (by simp [hlive])] at hcount
      exact absurd hcount.symm (Nat.succ_ne_zero _)

end

/-- An attachment moves a reference from the old color buffer to the new one: `rest` is what is due
without it. -/
theorem Balanced.attach (rest : HandleType → ℕ) (h : Balanced due s)
    (hpipe : host.m_refCountPipeEnabled = false) (hlive : s.m_colorbuffers handle = some ref)
    (hattach : s.attach host old handle ref = some s') (hwrap : old ≠ handle → ref.refcount + 1 ≠ 0)
    (hold : old ≠ 0 → due old = rest old + 1)
    (hrest : ∀ other, other ≠ 0 → other ≠ old → rest other = due other)
    (hnew : due' handle = rest handle + 1)
    (hothers : ∀ other, other ≠ 0 → other ≠ handle → due' other = rest other) : Balanced due' s' := by
  have hhandle := h.handle_ne_zero hlive
  have hopened : Balanced due (s.markOpened handle ref) :=
    h.markOpened hlive (h.count handle ref hlive) fun _ _ _ ↦ rfl
  have hclosed : Balanced rest ((s.markOpened handle ref).closeOld host old) := by
    unfold closeOld
    split_ifs with hzero
    · exact hopened.close hpipe (fun _ ↦ hold hzero) hrest false
    · exact hopened.congr fun other hne ↦ hrest other hne fun heq ↦ hne (heq.trans (not_not.mp hzero))
  obtain ⟨found, hfound, rfl⟩ := map_eq_some_iff.mp hattach
  have hnonzero : found.refcount + 1 ≠ 0 := by
    rw [count_attached hpipe hfound]
    split_ifs with hsame
    · intro hzero
      have hcount := h.count handle ref hlive
      rw [hzero, ← hsame.2, hold hsame.1] at hcount
      exact absurd hcount.symm (Nat.succ_ne_zero _)
    · exact hwrap fun heq ↦ hsame ⟨heq ▸ hhandle, heq⟩
  refine hclosed.set hhandle ?_ hothers
  rw [hnew, ← hclosed.count handle found hfound]
  exact toNat_add_one hnonzero

end Primitive

/-! ## Attachments -/

section Attachments

variable {windows : HandleType → Option Window} {surface handle : HandleType} {window : Window}

/-- The number of window surfaces whose current attachment is the color buffer. -/
noncomputable def attachments (windows : HandleType → Option Window) (handle : HandleType) : ℕ :=
  { surface | (windows surface).map Window.attached = some handle }.ncard

theorem attachments_insert (hnone : windows surface = none) (window : Window) (handle : HandleType) :
    attachments (Function.update windows surface (some window)) handle =
      attachments windows handle + if window.attached = handle then 1 else 0 := by
  have hnot : surface ∉ { surface | (windows surface).map Window.attached = some handle } := by
    simp [hnone]
  unfold attachments
  split_ifs with hattached
  · rw [← Set.ncard_insert_of_notMem hnot]
    congr 1
    ext other
    by_cases heq : other = surface
    · simp [heq, hattached]
    · simp [heq]
  · congr 1
    ext other
    by_cases heq : other = surface
    · simp [heq, hattached, hnone]
    · simp [Function.update_of_ne heq]

/-- Without the window surface there is one attachment less. -/
theorem attachments_of_some (hsome : windows surface = some window) (handle : HandleType) :
    attachments windows handle = attachments (Function.update windows surface none) handle +
      if window.attached = handle then 1 else 0 := by
  have hwindows : windows = Function.update (Function.update windows surface none) surface (some window) := by
    rw [Function.update_idem, ← hsome, Function.update_eq_self]
  conv_lhs => rw [hwindows]
  exact attachments_insert (Function.update_self ..) window handle

theorem attachments_update (new : Window) (handle : HandleType) :
    attachments (Function.update windows surface (some new)) handle =
      attachments (Function.update windows surface none) handle + if new.attached = handle then 1 else 0 := by
  rw [← attachments_insert (Function.update_self ..), Function.update_idem]

theorem attachments_eq_zero (h : ∀ surface window, windows surface = some window → window.attached ≠ handle) :
    attachments windows handle = 0 := by
  have hempty : { surface | (windows surface).map Window.attached = some handle } = ∅ := by
    refine Set.eq_empty_of_forall_notMem fun surface hmem ↦ ?_
    obtain ⟨window, hwindow, hattached⟩ := map_eq_some_iff.mp hmem
    exact h surface window hwindow hattached
  rw [attachments, hempty, Set.ncard_empty]

end Attachments

/-! ## Credit -/

/-- The color buffers, and of each how many creations and opens have not been closed. -/
structure Account where
  cbs : ColorBuffers
  credit : HandleType → ℕ

namespace Account

def creditAfter (account : Account) : Action → HandleType → ℕ
  | .insert handle => Function.update account.credit handle 1
  | .reopen handle =>
    if (account.cbs.m_colorbuffers handle).isSome then
      Function.update account.credit handle (account.credit handle + 1)
    else account.credit
  | .close handle =>
    if (account.cbs.m_colorbuffers handle).isSome then
      Function.update account.credit handle (account.credit handle - 1)
    else account.credit
  | _ => account.credit

def perform (host : Host) (action : Action) (account : Account) : Option Account :=
  (ColorBuffers.perform host action account.cbs).map fun cbs ↦ ⟨cbs, account.creditAfter action⟩

/-- The color buffers are balanced, given how many window surfaces each is attached to. -/
def Balances (attached : HandleType → ℕ) (account : Account) : Prop :=
  Balanced (fun handle ↦ attached handle + account.credit handle) account.cbs

end Account

/-- The credit covers the close of a color buffer that is still there, and no count wraps. -/
def Covered : Action → Account → Prop
  | .insert handle, _ => handle ≠ 0
  | .reopen handle, account => ∀ ref ∈ account.cbs.m_colorbuffers handle, ref.refcount + 1 ≠ 0
  | .post _, _ => True
  | .attach old handle, account =>
    ∀ ref ∈ account.cbs.m_colorbuffers handle, old ≠ handle → ref.refcount + 1 ≠ 0
  | .detach _, _ => True
  | .close handle, account => (account.cbs.m_colorbuffers handle).isSome = true → 0 < account.credit handle
  | .erase _, _ => True

instance decidableCovered : ∀ action account, Decidable (Covered action account)
  | .insert _, _ => inferInstanceAs (Decidable (_ ≠ _))
  | .reopen handle, account => inferInstanceAs (Decidable (∀ ref ∈ account.cbs.m_colorbuffers handle, _))
  | .post _, _ => isTrue trivial
  | .attach _ handle, account => inferInstanceAs (Decidable (∀ ref ∈ account.cbs.m_colorbuffers handle, _ → _))
  | .detach _, _ => isTrue trivial
  | .close _, _ => inferInstanceAs (Decidable (_ → _))
  | .erase _, _ => isTrue trivial

/-- The action leaves the window surfaces alone. -/
def Action.Fixed : Action → Prop
  | .attach .. => False
  | .detach _ => False
  | _ => True

section Account

variable {host : Host} {account account' : Account} {attached : HandleType → ℕ}

variable {performed : List Action}

theorem run_cbs_of_account (h : run (Account.perform host) account performed = some account') :
    run (perform host) account.cbs performed = some account'.cbs := by
  induction performed generalizing account with
  | nil => exact congrArg (fun account ↦ some account.cbs) (Option.some.inj h)
  | cons action performed ih =>
    obtain ⟨next, hnext, hrest⟩ := bind_eq_some_iff.mp h
    obtain ⟨cbs, hcbs, rfl⟩ := map_eq_some_iff.mp hnext
    rw [run_cons, hcbs]
    exact ih hrest

theorem run_account_of_cbs {cbs : ColorBuffers} (account : Account)
    (h : run (perform host) account.cbs performed = some cbs) :
    ∃ credit, run (Account.perform host) account performed = some ⟨cbs, credit⟩ := by
  induction performed generalizing account with
  | nil =>
    cases h
    exact ⟨account.credit, rfl⟩
  | cons action performed ih =>
    obtain ⟨next, hnext, hrest⟩ := bind_eq_some_iff.mp h
    obtain ⟨credit, hcredit⟩ := ih ⟨next, account.creditAfter action⟩ hrest
    refine ⟨credit, ?_⟩
    rw [run_cons, Account.perform, hnext]
    exact hcredit

section

variable (hpipe : host.m_refCountPipeEnabled = false) (h : account.Balances attached)
include hpipe h

theorem balances_perform {action : Action} (hfixed : action.Fixed) (hcovered : Covered action account)
    (hinsert : ∀ handle, action = .insert handle → attached handle = 0)
    (hperform : account.perform host action = some account') : account'.Balances attached := by
  obtain ⟨cbs, hcbs, rfl⟩ := map_eq_some_iff.mp hperform
  cases action with
  | insert handle =>
    obtain ⟨_, rfl⟩ := perform_insert hcbs
    refine Balanced.set h hcovered ?_ fun other _ hne ↦ ?_
    · simp [Account.creditAfter, hinsert handle rfl, created]
    · simp [Account.creditAfter, Function.update_of_ne hne]
  | reopen handle =>
    obtain ⟨hdead, rfl⟩ | ⟨ref, hlive, rfl⟩ := perform_reopen hcbs
    · simpa [Account.Balances, Account.creditAfter, hdead] using h
    · have hcount := (toNat_add_one (hcovered ref hlive)).trans
        (congrArg (· + 1) (h.count handle ref hlive))
      refine Balanced.markOpened h hlive (hcount.trans ?_) fun other _ hne ↦ ?_
      · simp [Account.creditAfter, hlive, Nat.add_assoc]
      · simp [Account.creditAfter, hlive, Function.update_of_ne hne]
  | post handle =>
    obtain ⟨_, rfl⟩ | ⟨ref, hlive, rfl⟩ := perform_post hcbs
    · exact h
    · exact Balanced.markOpened h hlive (h.count handle ref hlive) fun _ _ _ ↦ rfl
  | attach old handle => exact hfixed.elim
  | detach handle => exact hfixed.elim
  | close handle =>
    cases hcbs
    refine Balanced.close h hpipe (fun hlive ↦ ?_) (fun other _ hne ↦ ?_) false
    · have hcredit := hcovered hlive
      simp only [Account.creditAfter, hlive, if_true, Function.update_self]
      omega
    · simp only [Account.creditAfter]
      split_ifs
      · rw [Function.update_of_ne hne]
      · rfl
  | erase handle => exact Option.some.inj hcbs ▸ Balanced.erase h handle

theorem balances_run (hfixed : ∀ action ∈ performed, action.Fixed)
    (hcovered : Guarded (Account.perform host) Covered account performed)
    (hinsert : ∀ handle, .insert handle ∈ performed → attached handle = 0)
    (hrun : run (Account.perform host) account performed = some account') : account'.Balances attached := by
  induction performed generalizing account with
  | nil => exact Option.some.inj hrun ▸ h
  | cons action performed ih =>
    obtain ⟨next, hnext, hrest⟩ := bind_eq_some_iff.mp hrun
    refine ih ?_ (fun other hmem ↦ hfixed other (List.mem_cons_of_mem action hmem))
      (hcovered.2 next hnext) (fun handle hmem ↦ hinsert handle (List.mem_cons_of_mem action hmem)) hrest
    exact balances_perform hpipe h (hfixed action List.mem_cons_self) hcovered.1
      (fun handle heq ↦ hinsert handle (heq ▸ List.mem_cons_self)) hnext

end

end Account

/-! ## Window surfaces -/

section Windows

variable {host : Host} {account account' : Account} {windows : HandleType → Option Window}
  {surface : HandleType} {window : Window}

section

variable (hpipe : host.m_refCountPipeEnabled = false)
include hpipe

/-- The reference of an attachment goes with the window surface. -/
theorem balances_detach (h : account.Balances (attachments windows)) (hwindow : windows surface = some window)
    (hperform : account.perform host (.detach window.attached) = some account') :
    account'.Balances (attachments (Function.update windows surface none)) := by
  obtain ⟨cbs, hcbs, rfl⟩ := map_eq_some_iff.mp hperform
  cases hcbs
  refine Balanced.close h hpipe (fun _ ↦ ?_) (fun other _ hne ↦ ?_) false
  · rw [attachments_of_some hwindow, if_pos rfl]
    exact Nat.add_right_comm ..
  · rw [attachments_of_some hwindow, if_neg (Ne.symm hne), Nat.add_zero]
    rfl

theorem balances_closes {attached : HandleType → ℕ} {handles : List HandleType} (h : account.Balances attached)
    (hcovered : Guarded (Account.perform host) Covered account (handles.map .close))
    (hrun : run (Account.perform host) account (handles.map .close) = some account') :
    account'.Balances attached := by
  refine balances_run hpipe h (fun action hmem ↦ ?_) hcovered (fun handle hmem ↦ ?_) hrun
  · obtain ⟨handle, _, rfl⟩ := List.mem_map.mp hmem
    trivial
  · obtain ⟨_, _, heq⟩ := List.mem_map.mp hmem
    cases heq

theorem balances_releases (h : account.Balances (attachments windows)) (hwindow : windows surface = some window)
    (hcovered : Guarded (Account.perform host) Covered account window.releases)
    (hrun : run (Account.perform host) account window.releases = some account') :
    account'.Balances (attachments (Function.update windows surface none)) := by
  obtain ⟨next, hnext, hrest⟩ := bind_eq_some_iff.mp hrun
  exact balances_closes hpipe (balances_detach hpipe h hwindow hnext) (hcovered.2 next hnext) hrest

theorem balances_attach {handle : HandleType} (h : account.Balances (attachments windows))
    (hwindow : windows surface = some window) (hlive : (account.cbs.m_colorbuffers handle).isSome = true)
    (hcovered : Covered (.attach window.attached handle) account)
    (hperform : account.perform host (.attach window.attached handle) = some account') {new : Window}
    (hnew : new.attached = handle) :
    account'.Balances (attachments (Function.update windows surface (some new))) := by
  obtain ⟨cbs, hcbs, rfl⟩ := map_eq_some_iff.mp hperform
  obtain ⟨hdead, _⟩ | ⟨ref, hlive, hattach⟩ := perform_attach hcbs
  · rw [hdead] at hlive
    cases hlive
  refine Balanced.attach
    (fun other ↦ attachments (Function.update windows surface none) other + account.credit other)
    h hpipe hlive hattach (hcovered ref hlive) (fun _ ↦ ?_) (fun other _ hne ↦ ?_) ?_ fun other _ hne ↦ ?_
  · rw [attachments_of_some hwindow, if_pos rfl]
    exact Nat.add_right_comm ..
  · rw [attachments_of_some hwindow, if_neg (Ne.symm hne), Nat.add_zero]
  · rw [attachments_update, if_pos hnew]
    exact Nat.add_right_comm ..
  · rw [attachments_update, if_neg fun heq ↦ hne (heq.symm.trans hnew), Nat.add_zero]
    rfl

theorem balances_drainActions {order : List HandleType} {s : FrameBuffer}
    (h : account.Balances (attachments s.m_windows))
    (hcovered : Guarded (Account.perform host) Covered account (drainActions s.m_windows order))
    (hrun : run (Account.perform host) account (drainActions s.m_windows order) = some account') :
    account'.Balances (attachments (order.foldl (drainWindow host) s).m_windows) := by
  induction order generalizing s account with
  | nil => exact Option.some.inj hrun ▸ h
  | cons winHandle order ih =>
    rw [List.foldl_cons]
    cases hwindow : s.m_windows winHandle with
    | none =>
      simp only [drainActions, hwindow] at hcovered hrun
      have hsame : drainWindow host s winHandle = s := by
        simp only [drainWindow, hwindow]
      rw [hsame]
      exact ih h hcovered hrun
    | some window =>
      simp only [drainActions, hwindow] at hcovered hrun
      by_cases hattached : window.attached = 0
      · rw [if_neg (not_not.mpr hattached)] at hcovered hrun
        have hsame : drainWindow host s winHandle = s := by
          simp only [drainWindow, hwindow, hattached, ne_eq, not_true_eq_false, if_false]
        rw [hsame]
        exact ih h hcovered hrun
      · rw [if_pos hattached] at hcovered hrun
        have hwindows : (drainWindow host s winHandle).m_windows =
            Function.update s.m_windows winHandle none := by
          simp only [drainWindow, hwindow, ne_eq, hattached, not_false_eq_true, if_true]
        rw [run_append] at hrun
        obtain ⟨next, hnext, hrest⟩ := bind_eq_some_iff.mp hrun
        obtain ⟨hfirst, hsecond⟩ := guarded_append_of_run hcovered hnext
        rw [← hwindows] at hsecond hrest
        refine ih ?_ hsecond hrest
        rw [hwindows]
        exact balances_releases hpipe h hwindow hfirst hnext

theorem balances_cleanupActions {order : List HandleType} {s s' : FrameBuffer}
    (h : account.Balances (attachments s.m_windows)) (hcleanup : s.cleanupWindows host order = .ok s')
    (hrun : run (Account.perform host) account (cleanupActions s.m_windows order) = some account') :
    account'.Balances (attachments s'.m_windows) := by
  induction order generalizing s account with
  | nil =>
    cases hcleanup
    exact Option.some.inj hrun ▸ h
  | cons whndl order ih =>
    obtain ⟨cleaned, hcleaned, hrest⟩ := cleanupWindows_cases hcleanup
    obtain ⟨window, hwindow, hstate⟩ := cleanupWindow_cases hcleaned
    have hwindows : cleaned.m_windows = Function.update s.m_windows whndl none := by
      rw [hstate]
    simp only [cleanupActions, hwindow, ← hwindows] at hrun
    obtain ⟨next, hnext, hrun⟩ := bind_eq_some_iff.mp hrun
    refine ih ?_ hrest hrun
    rw [hwindows]
    exact balances_detach hpipe h hwindow hnext

end

end Windows

/-! ## Operations -/

section Operations

variable {host : Host} {s s' : FrameBuffer} {credit : HandleType → ℕ} {account : Account}
  {thread : ThreadId} {handle : HandleType}

variable {isCreated : Bool} {ret : HandleType} {event : Event}

theorem m_windows_createLocked
    (h : s.createColorBufferWithHandleLocked host thread isCreated handle = .ok (ret, s')) :
    s'.m_windows = s.m_windows := by
  obtain rfl | ⟨_, _, rfl⟩ := createColorBufferWithHandleLocked_cases h
  · rfl
  · unfold ownNewColorBuffer
    simp only
    split_ifs <;> rfl

theorem m_windows_createColorBuffer (h : s.createColorBuffer host thread isCreated = .ok (ret, s')) :
    s'.m_windows = s.m_windows := by
  obtain ⟨id, generated, hgen, hlocked⟩ := createColorBuffer_cases h
  rw [m_windows_createLocked hlocked, (genHandle_locked_ok hgen).2]
  rfl

theorem m_windows_openColorBuffer : (s.openColorBuffer host thread handle).2.m_windows = s.m_windows := by
  unfold FrameBuffer.openColorBuffer
  split_ifs
  · rfl
  cases s.m_colorbuffers handle with
  | none => rfl
  | some ref =>
    simp only
    split_ifs <;> rfl

theorem m_windows_closeColorBuffer : (s.closeColorBuffer host thread handle).m_windows = s.m_windows := by
  unfold FrameBuffer.closeColorBuffer
  simp only
  split_ifs <;> rfl

theorem m_windows_postImpl {isShown : Bool} : (s.postImpl isShown handle).2.m_windows = s.m_windows := by
  unfold FrameBuffer.postImpl
  split_ifs
  · cases s.m_colorbuffers handle <;> rfl
  · rfl

theorem m_windows_createRenderContext {hasConfig : Bool} {share : HandleType}
    (h : s.createRenderContext thread hasConfig isCreated share = .ok (ret, s')) :
    s'.m_windows = s.m_windows := by
  obtain rfl | ⟨id, generated, hgen, hstate⟩ := createRenderContext_cases h
  · rfl
  have hgenerated : generated.m_windows = s.m_windows := by
    rw [(genHandle_locked_ok hgen).2]
  obtain rfl | rfl := hstate
  · exact hgenerated
  · unfold addContext
    simp only
    split_ifs <;> exact hgenerated

/-- A new window surface has nothing attached. -/
theorem attachments_createWindowSurface {hasConfig : Bool}
    (h : s.createWindowSurface thread hasConfig isCreated = .ok (ret, s')) (hhandle : handle ≠ 0) :
    attachments s'.m_windows handle = attachments s.m_windows handle := by
  obtain rfl | ⟨id, generated, hgen, hstate⟩ := createWindowSurface_cases h
  · rfl
  obtain ⟨htaken, hgenerated⟩ := genHandle_locked_ok hgen
  have hwindows : generated.m_windows = s.m_windows := by
    rw [hgenerated]
  obtain rfl | rfl := hstate
  · rw [hwindows]
  · have hfresh : s.m_windows id = none := by
      have hnone := (taken_eq_false.mp htaken).2 .window
      simpa [FrameBuffer.has] using hnone
    have hadded : (generated.addWindow thread id).m_windows = Function.update s.m_windows id (some ⟨0, []⟩) := by
      unfold addWindow
      simp only
      rw [← hwindows]
      split_ifs <;> rfl
    rw [hadded, attachments_insert hfresh, if_neg hhandle.symm, Nat.add_zero]

/-- The operation leaves the window surfaces alone. -/
def Event.KeepsWindows : Event → Prop
  | .createWindowSurface .. => False
  | .setWindowSurfaceColorBuffer .. => False
  | .destroyWindowSurface .. => False
  | .drainWindowSurface .. => False
  | .cleanupProcGLObjects .. => False
  | _ => True

theorem m_windows_of_keepsWindows (hkeeps : event.KeepsWindows) (h : step host event s = some s') :
    s'.m_windows = s.m_windows := by
  obtain ⟨_, hexec⟩ := exec_of_step h
  cases event with
  | rcSetPuid thread puid => exact Except.ok.inj hexec ▸ rfl
  | setShuttingDown => exact Except.ok.inj hexec ▸ rfl
  | createRenderContext thread hasConfig isCreated share =>
    obtain ⟨ret, hret⟩ := map_snd_eq_ok hexec
    exact m_windows_createRenderContext hret
  | createWindowSurface thread hasConfig isCreated => exact hkeeps.elim
  | createColorBuffer thread isCreated =>
    obtain ⟨ret, hret⟩ := map_snd_eq_ok hexec
    exact m_windows_createColorBuffer hret
  | createColorBufferWithHandle thread isCreated handle =>
    obtain ⟨_, ret, hret⟩ := createColorBufferWithHandle_cases hexec
    exact m_windows_createLocked hret
  | createBuffer isCreated =>
    obtain ⟨ret, hret⟩ := map_snd_eq_ok hexec
    obtain ⟨id, generated, hgen, rfl | rfl⟩ := createBuffer_cases hret <;> rw [(genHandle_locked_ok hgen).2]
  | openColorBuffer thread handle => exact Except.ok.inj hexec ▸ m_windows_openColorBuffer
  | closeColorBuffer thread handle => exact Except.ok.inj hexec ▸ m_windows_closeColorBuffer
  | closeBuffer handle => exact Except.ok.inj hexec ▸ rfl
  | closePthreadAloneColorBuffer tid =>
    rw [← Except.ok.inj hexec, FrameBuffer.closePthreadAloneColorBuffer]
    split_ifs <;> rfl
  | setWindowSurfaceColorBuffer surface handle => exact hkeeps.elim
  | postImpl isShown handle => exact Except.ok.inj hexec ▸ m_windows_postImpl
  | onLastColorBufferRef handle =>
    rw [← Except.ok.inj hexec, FrameBuffer.onLastColorBufferRef]
    split_ifs <;> rfl
  | destroyRenderContext thread handle =>
    rw [← Except.ok.inj hexec, DestroyRenderContext, disownContext]
    simp only
    split_ifs <;> rfl
  | destroyWindowSurface thread handle => exact hkeeps.elim
  | drainRenderContext thread =>
    rw [← Except.ok.inj hexec, FrameBuffer.drainRenderContext]
    split_ifs <;> rfl
  | drainWindowSurface thread order => exact hkeeps.elim
  | cleanupProcGLObjects puid windowOrder bufferOrder => exact hkeeps.elim

/-- The handle of the color buffer that the operation creates. -/
def inserted (s : FrameBuffer) : Event → Option HandleType
  | .createColorBuffer _ true => s.genHandle_locked.toOption.map Prod.fst
  | .createColorBufferWithHandle _ true handle => some handle
  | _ => none

theorem fixed_of_keepsWindows (hkeeps : event.KeepsWindows) {action : Action} (hmem : action ∈ actions s event) :
    action.Fixed ∧ ∀ handle, action = .insert handle → handle ∈ inserted s event := by
  cases event with
  | createColorBuffer thread isCreated =>
    cases isCreated with
    | false =>
      simp only [actions_createColorBuffer, Bool.false_eq_true, if_false] at hmem
      split at hmem <;> cases hmem
    | true =>
      simp only [actions_createColorBuffer, if_true] at hmem
      split at hmem
      · cases hmem
      next id generated hgen =>
      rw [List.mem_singleton.mp hmem]
      refine ⟨trivial, fun handle heq ↦ ?_⟩
      rw [← Action.insert.inj heq]
      simp [inserted, hgen, Except.toOption]
  | createColorBufferWithHandle thread isCreated handle =>
    cases isCreated with
    | false => cases hmem
    | true =>
      rw [List.mem_singleton.mp hmem]
      exact ⟨trivial, fun other heq ↦ congrArg some (Action.insert.inj heq)⟩
  | openColorBuffer thread handle =>
    rw [List.mem_singleton.mp hmem]
    exact ⟨trivial, fun _ heq ↦ by cases heq⟩
  | closeColorBuffer thread handle =>
    rw [actions_closeColorBuffer] at hmem
    split_ifs at hmem
    · cases hmem
    · rw [List.mem_singleton.mp hmem]
      exact ⟨trivial, fun _ heq ↦ by cases heq⟩
  | closePthreadAloneColorBuffer tid =>
    rw [actions_closePthreadAlone] at hmem
    split_ifs at hmem
    · obtain ⟨handle, _, rfl⟩ := List.mem_map.mp hmem
      exact ⟨trivial, fun _ heq ↦ by cases heq⟩
    · cases hmem
  | postImpl isShown handle =>
    rw [actions_postImpl] at hmem
    split_ifs at hmem
    · rw [List.mem_singleton.mp hmem]
      exact ⟨trivial, fun _ heq ↦ by cases heq⟩
    · cases hmem
  | createWindowSurface thread hasConfig isCreated => exact hkeeps.elim
  | setWindowSurfaceColorBuffer surface handle => exact hkeeps.elim
  | destroyWindowSurface thread handle => exact hkeeps.elim
  | drainWindowSurface thread order => exact hkeeps.elim
  | cleanupProcGLObjects puid windowOrder bufferOrder => exact hkeeps.elim
  | _ => cases hmem

/-- A new color buffer is not attached anywhere. -/
def NewUnattached (event : Event) (s : FrameBuffer) : Prop :=
  ∀ handle ∈ inserted s event, ∀ surface window, s.m_windows surface = some window → window.attached ≠ handle

theorem balances_of_keepsWindows (hpipe : host.m_refCountPipeEnabled = false)
    (hstep : step host event s = some s') (hkeeps : event.KeepsWindows)
    (h : Account.Balances (attachments s.m_windows) ⟨s.colorBuffers, credit⟩)
    (hcovered : Guarded (Account.perform host) Covered ⟨s.colorBuffers, credit⟩ (actions s event))
    (hnew : NewUnattached event s)
    (hrun : run (Account.perform host) ⟨s.colorBuffers, credit⟩ (actions s event) = some account) :
    account.Balances (attachments s'.m_windows) := by
  rw [m_windows_of_keepsWindows hkeeps hstep]
  refine balances_run hpipe h (fun action hmem ↦ (fixed_of_keepsWindows hkeeps hmem).1) hcovered
    (fun handle hmem ↦ ?_) hrun
  exact attachments_eq_zero (hnew handle ((fixed_of_keepsWindows hkeeps hmem).2 handle rfl))

section

variable (hpipe : host.m_refCountPipeEnabled = false)
  (h : Account.Balances (attachments s.m_windows) ⟨s.colorBuffers, credit⟩)
include hpipe h

theorem balances_setWindowSurfaceColorBuffer {surface : HandleType} {result : Bool}
    (hcovered : Guarded (Account.perform host) Covered ⟨s.colorBuffers, credit⟩ (actions s (.setWindowSurfaceColorBuffer surface handle)))
    (hrun : run (Account.perform host) ⟨s.colorBuffers, credit⟩ (actions s (.setWindowSurfaceColorBuffer surface handle)) = some account)
    (hset : s.setWindowSurfaceColorBuffer host surface handle = .ok (result, s')) :
    account.Balances (attachments s'.m_windows) := by
  unfold FrameBuffer.setWindowSurfaceColorBuffer FrameBuffer.m_colorbuffers at hset
  cases hwindow : s.m_windows surface with
  | none =>
    simp only [actions_setWindowSurfaceColorBuffer, hwindow, Option.elim_none] at hrun
    simp only [hwindow] at hset
    rw [state_eq_of_ok hset]
    exact Option.some.inj hrun ▸ h
  | some window =>
    simp only [actions_setWindowSurfaceColorBuffer, hwindow, Option.elim_some, run_cons, run_nil] at hcovered hrun
    obtain ⟨next, hnext, hrest⟩ := bind_eq_some_iff.mp hrun
    cases hrest
    cases hlive : s.colorBuffers.m_colorbuffers handle with
    | none =>
      simp only [hwindow, hlive] at hset
      simp only [Account.perform, perform, hlive] at hnext
      rw [state_eq_of_ok hset]
      exact Option.some.inj hnext ▸ h
    | some ref =>
      simp only [hwindow, hlive] at hset
      split at hset
      · cases hset
      rw [state_eq_of_ok hset]
      exact balances_attach hpipe h hwindow (by simp [hlive]) hcovered.1 hnext rfl

theorem balances_DestroyWindowSurface
    (hcovered : Guarded (Account.perform host) Covered ⟨s.colorBuffers, credit⟩ (actions s (.destroyWindowSurface thread handle)))
    (hrun : run (Account.perform host) ⟨s.colorBuffers, credit⟩ (actions s (.destroyWindowSurface thread handle)) = some account) :
    account.Balances (attachments (s.DestroyWindowSurface host thread handle).m_windows) := by
  unfold DestroyWindowSurface
  rw [actions_destroyWindowSurface] at hcovered hrun
  split_ifs at hcovered hrun ⊢
  · exact Option.some.inj hrun ▸ h
  cases hwindow : s.m_windows handle with
  | none =>
    simp only [hwindow, Option.elim_none] at hrun
    exact Option.some.inj hrun ▸ h
  | some window =>
    simp only [hwindow, Option.elim_some] at hcovered hrun
    have hreleased := balances_releases hpipe h hwindow hcovered hrun
    unfold disownWindow
    simp only
    split_ifs <;> exact hreleased

theorem balances_cleanupProcGLObjects {puid : UInt64} {windowOrder bufferOrder : List HandleType}
    (hcovered : Guarded (Account.perform host) Covered ⟨s.colorBuffers, credit⟩ (actions s (.cleanupProcGLObjects puid windowOrder bufferOrder)))
    (hrun : run (Account.perform host) ⟨s.colorBuffers, credit⟩ (actions s (.cleanupProcGLObjects puid windowOrder bufferOrder)) = some account)
    (hcleanup : s.cleanupProcGLObjects host puid windowOrder bufferOrder = .ok s') :
    account.Balances (attachments s'.m_windows) := by
  obtain ⟨cleaned, hcleaned, rfl⟩ := cleanupProcGLObjects_cases hcleanup
  rw [actions_cleanupProcGLObjects] at hcovered hrun
  rw [run_append] at hrun
  obtain ⟨next, hnext, hrest⟩ := bind_eq_some_iff.mp hrun
  have hwindows := balances_cleanupActions hpipe h hcleaned hnext
  exact balances_closes hpipe hwindows (guarded_append_of_run hcovered hnext).2 hrest

/-- The actions of an operation balance with the window surfaces that it leaves. -/
theorem balances_of_step
    (hcovered : Guarded (Account.perform host) Covered ⟨s.colorBuffers, credit⟩ (actions s event))
    (hnew : NewUnattached event s)
    (hrun : run (Account.perform host) ⟨s.colorBuffers, credit⟩ (actions s event) = some account)
    (hstep : step host event s = some s') : account.Balances (attachments s'.m_windows) := by
  obtain ⟨_, hexec⟩ := exec_of_step hstep
  cases event with
  | createWindowSurface thread hasConfig isCreated =>
    obtain ⟨ret, hret⟩ := map_snd_eq_ok hexec
    cases hrun
    exact Balanced.congr h fun other hne ↦
      congrArg (· + credit other) (attachments_createWindowSurface hret hne)
  | setWindowSurfaceColorBuffer surface handle =>
    obtain ⟨result, hresult⟩ := map_snd_eq_ok hexec
    exact balances_setWindowSurfaceColorBuffer hpipe h hcovered hrun hresult
  | destroyWindowSurface thread handle =>
    exact Except.ok.inj hexec ▸ balances_DestroyWindowSurface hpipe h hcovered hrun
  | drainWindowSurface thread order =>
    rw [← Except.ok.inj hexec]
    unfold FrameBuffer.drainWindowSurface
    rw [actions_drainWindowSurface] at hcovered hrun
    split_ifs at hcovered hrun ⊢
    · exact Option.some.inj hrun ▸ h
    · exact balances_drainActions hpipe h hcovered hrun
  | cleanupProcGLObjects puid windowOrder bufferOrder =>
    exact balances_cleanupProcGLObjects hpipe h hcovered hrun hexec
  | _ => exact balances_of_keepsWindows hpipe hstep trivial h hcovered hnew hrun

end

end Operations

/-! ## Runs -/

/-- The program with the credit of its color buffers. -/
abbrev Audited := FrameBuffer × (HandleType → ℕ)

def audit (host : Host) (event : Event) (audited : Audited) : Option Audited :=
  (step host event audited.1).bind fun s ↦
    (run (Account.perform host) ⟨audited.1.colorBuffers, audited.2⟩ (actions audited.1 event)).map
      fun account ↦ (s, account.credit)

/-- Every close of the operation is covered by the credit that is left, no count wraps, and a
new color buffer is not attached anywhere. -/
def AllCovered (host : Host) (event : Event) (audited : Audited) : Prop :=
  Guarded (Account.perform host) Covered ⟨audited.1.colorBuffers, audited.2⟩ (actions audited.1 event) ∧
    NewUnattached event audited.1

def AuditHolds (audited : Audited) : Prop :=
  Account.Balances (attachments audited.1.m_windows) ⟨audited.1.colorBuffers, audited.2⟩ ∧
    audited.1.mOutstandingColorBufferDestroys = []

section Runs

variable {host : Host} (hpipe : host.m_refCountPipeEnabled = false)

include hpipe

theorem audit_holds (event : Event) (audited audited' : Audited) (h : AuditHolds audited)
    (hcovered : AllCovered host event audited) (haudit : audit host event audited = some audited') :
    AuditHolds audited' := by
  obtain ⟨s, hstep, haudit⟩ := bind_eq_some_iff.mp haudit
  obtain ⟨account, hrun, rfl⟩ := map_eq_some_iff.mp haudit
  obtain ⟨hcbs, hnone⟩ := performs_of_step hpipe h.2 hstep
  have hsame : account.cbs = s.colorBuffers := Option.some.inj ((run_cbs_of_account hrun).symm.trans hcbs)
  refine ⟨?_, hnone.trans h.2⟩
  rw [← hsame]
  exact balances_of_step hpipe h.1 hcovered.1 hcovered.2 hrun hstep

/-- Keeping the credit does not get in the way of a run. -/
theorem exists_audited_run {events : List Event} (audited : Audited) {s : FrameBuffer}
    (hnone : audited.1.mOutstandingColorBufferDestroys = [])
    (hrun : run (step host) audited.1 events = some s) :
    ∃ credit, run (audit host) audited events = some (s, credit) := by
  induction events generalizing audited with
  | nil => exact ⟨audited.2, congrArg (fun s ↦ some (s, audited.2)) (Option.some.inj hrun)⟩
  | cons event events ih =>
    obtain ⟨next, hnext, hrest⟩ := bind_eq_some_iff.mp hrun
    obtain ⟨hcbs, hnone'⟩ := performs_of_step hpipe hnone hnext
    obtain ⟨credit, hcredit⟩ := run_account_of_cbs ⟨audited.1.colorBuffers, audited.2⟩ hcbs
    obtain ⟨final, hfinal⟩ := ih (next, credit) (hnone'.trans hnone) hrest
    refine ⟨final, ?_⟩
    have haudit : audit host event audited = some (next, credit) := by
      rw [audit, hnext, Option.bind_some, hcredit, Option.map_some]
    rw [run_cons, haudit]
    exact hfinal

end Runs

/-- As long as every close is covered, no count is taken below 0, and every color buffer has at
least as many references as window surfaces it is attached to. -/
theorem refcount_balanced_of_allCovered (host : Host) (hpipe : host.m_refCountPipeEnabled = false)
    (events : List Event) (s : FrameBuffer)
    (hcovered : Guarded (audit host) (AllCovered host) (.new, fun _ ↦ 0) events)
    (hrun : run (step host) .new events = some s) :
    (∀ handle refcount, .decremented handle refcount ∈ s.colorBuffers.trace → refcount ≠ 0) ∧
      ∀ handle ref, s.m_colorbuffers handle = some ref →
        attachments s.m_windows handle ≤ ref.refcount.toNat := by
  obtain ⟨credit, haudited⟩ :=
    exists_audited_run hpipe (FrameBuffer.new, fun _ ↦ 0) rfl hrun
  have hinit : AuditHolds (.new, fun _ ↦ 0) := ⟨balanced_new _, rfl⟩
  have hholds : AuditHolds (s, credit) := invariant_of_guarded AuditHolds (audit_holds hpipe) hinit hcovered haudited
  refine ⟨hholds.1.decremented, fun handle ref hlive ↦ ?_⟩
  rw [hholds.1.count handle ref hlive]
  exact Nat.le_add_right ..

/-- The guest closes the open, and the window surface closes the creation. -/
theorem refcount_balanced_destroyed :
    ∃ s, run (step .slow) .new [.createColorBuffer 1 true, .createWindowSurface 1 true true,
        .setWindowSurfaceColorBuffer 2 1, .openColorBuffer 1 1, .closeColorBuffer 1 1,
        .destroyWindowSurface 1 2] = some s ∧
      (∀ handle refcount, .decremented handle refcount ∈ s.colorBuffers.trace → refcount ≠ 0) ∧
      ∀ handle ref, s.m_colorbuffers handle = some ref →
        attachments s.m_windows handle ≤ ref.refcount.toNat := by
  obtain ⟨s, hrun⟩ := Option.isSome_iff_exists.mp (show (run (step .slow) .new
    [.createColorBuffer 1 true, .createWindowSurface 1 true true, .setWindowSurfaceColorBuffer 2 1,
      .openColorBuffer 1 1, .closeColorBuffer 1 1, .destroyWindowSurface 1 2]).isSome = true by decide +kernel)
  refine ⟨s, hrun, refcount_balanced_of_allCovered .slow rfl _ s (guarded_and (by decide +kernel) ?_) hrun⟩
  exact ⟨nofun, fun _ _ ↦ ⟨nofun, fun _ _ ↦ ⟨nofun, fun _ _ ↦ ⟨nofun, fun _ _ ↦ ⟨nofun, fun _ _ ↦
    ⟨nofun, fun _ _ ↦ trivial⟩⟩⟩⟩⟩⟩

/-- The window surface closes the creation, and so does the guest, once: the count wraps. -/
theorem count_wraps_after_destroy :
    ∃ s, run (step .slow) .new [.createColorBuffer 1 true, .createWindowSurface 1 true true,
        .setWindowSurfaceColorBuffer 2 1, .destroyWindowSurface 1 2, .closeColorBuffer 1 1] = some s ∧
      .decremented 1 0 ∈ s.colorBuffers.trace ∧
      (s.m_colorbuffers 1).map (·.refcount) = some 0xFFFFFFFF :=
  ⟨_, rfl, by decide +kernel, by decide +kernel⟩

end FdeEmugl.Fb

import Mathlib.Data.Int.Notation
import Mathlib.Data.Nat.Notation
import Mathlib.Logic.Function.Basic
import Mathlib.Tactic.SplitIfs

/-!
# Framebuffers and renderbuffers

A framebuffer has a table of attach points. A renderbuffer can be attached at several of them and to several
framebuffers, but refers back to one attachment only. An attachment that a framebuffer owns is deleted on the
host when it is detached.
-/

namespace FdeEmugl.Framebuffers

def GL_COLOR_ATTACHMENT0 : ℕ := 0x8CE0
def GL_COLOR_ATTACHMENT1 : ℕ := 0x8CE1
def GL_COLOR_ATTACHMENT15 : ℕ := 0x8CEF
def GL_DEPTH_ATTACHMENT : ℕ := 0x8D00
def GL_STENCIL_ATTACHMENT : ℕ := 0x8D20
def GL_DEPTH_STENCIL_ATTACHMENT : ℕ := 0x821A
def GL_RENDERBUFFER : ℕ := 0x8D41
def GL_TEXTURE_2D : ℕ := 0x0DE1

def MAX_ATTACH_POINTS : ℕ := 19

/-! ## The table -/

/-- What an attach point refers to. A renderbuffer is known by its object. -/
structure AttachPoint where
  target : ℕ
  name : ℕ
  globalName : ℕ
  obj : Option ℕ
  owned : Bool
deriving DecidableEq

def AttachPoint.empty : AttachPoint := ⟨0, 0, 0, none, false⟩

structure RenderbufferData where
  attachedFB : ℕ
  attachedPoint : ℕ
deriving DecidableEq

/-- There is one attach point more than `MAX_ATTACH_POINTS`, for attachments that are not known. -/
structure FramebufferData where
  fbName : ℕ
  fbGlobalName : ℕ
  attachPoints : ℕ → AttachPoint
  dirty : Bool
  hasBeenBound : Bool
  hasDrawBuffers : Bool
  drawBuffers : List ℕ
  readBuffer : ℕ

def FramebufferData.new (name globalName : ℕ) : FramebufferData :=
  ⟨name, globalName, fun _ ↦ .empty, false, false, false, [], GL_COLOR_ATTACHMENT0⟩

def attachmentPointIndex (attachment : ℕ) : ℕ :=
  if attachment = GL_COLOR_ATTACHMENT0 then 0
  else if attachment = GL_DEPTH_ATTACHMENT then 1
  else if attachment = GL_STENCIL_ATTACHMENT then 2
  else if attachment = GL_DEPTH_STENCIL_ATTACHMENT then 3
  else
    let idx : ℤ := attachment - GL_COLOR_ATTACHMENT1 + 4
    if idx < 4 ∨ idx > MAX_ATTACH_POINTS then MAX_ATTACH_POINTS else idx.toNat

/-- `framebufferAttachment`, which every caller asks first. -/
def framebufferAttachment (attachment : ℕ) : Bool :=
  GL_COLOR_ATTACHMENT0 ≤ attachment ∧ attachment ≤ GL_COLOR_ATTACHMENT15 ∨ attachment = GL_DEPTH_ATTACHMENT ∨
    attachment = GL_STENCIL_ATTACHMENT ∨ attachment = GL_DEPTH_STENCIL_ATTACHMENT

theorem attachmentPointIndex_lt {attachment : ℕ} (h : framebufferAttachment attachment = true) :
    attachmentPointIndex attachment < MAX_ATTACH_POINTS := by
  have hcases := of_decide_eq_true h
  unfold attachmentPointIndex
  dsimp only
  split_ifs <;>
    simp only [GL_COLOR_ATTACHMENT0, GL_COLOR_ATTACHMENT1, GL_COLOR_ATTACHMENT15, GL_DEPTH_ATTACHMENT,
      GL_STENCIL_ATTACHMENT, GL_DEPTH_STENCIL_ATTACHMENT, MAX_ATTACH_POINTS] at * <;>
    omega

/-! ## Attaching and detaching -/

/-- The renderbuffers, and what has been deleted on the host: the targets and names, the last one first. -/
structure Objects where
  renderbuffer : ℕ → RenderbufferData
  deleted : List (ℕ × ℕ)

namespace Objects

def setReference (objects : Objects) (rb attachedFB attachedPoint : ℕ) : Objects :=
  { objects with renderbuffer := Function.update objects.renderbuffer rb ⟨attachedFB, attachedPoint⟩ }

/-- `glDeleteRenderbuffers` and `glDeleteTextures`. -/
def delete (objects : Objects) (target name : ℕ) : Objects :=
  { objects with deleted := (target, name) :: objects.deleted }

end Objects

/-- The renderbuffer that an attach point holds. -/
def AttachPoint.held (point : AttachPoint) : Option ℕ := if point.target = GL_RENDERBUFFER then point.obj else none

/-- The object of the host that an attach point owns. -/
def AttachPoint.owns (point : AttachPoint) : Option (ℕ × ℕ) :=
  if point.owned ∧ (point.target = GL_RENDERBUFFER ∨ point.target = GL_TEXTURE_2D) then
    some (point.target, point.name)
  else none

def detachObject (idx : ℕ) (objects : Objects) (fb : FramebufferData) : Objects × FramebufferData :=
  let point := fb.attachPoints idx
  let objects :=
    match point.held with
    | some rb => objects.setReference rb 0 0
    | none => objects
  let objects :=
    match point.owns with
    | some (target, name) => objects.delete target name
    | none => objects
  (objects, { fb with attachPoints := Function.update fb.attachPoints idx .empty })

/-- `globalName` is what the share group gives for the name. -/
def setAttachment (attachment target name : ℕ) (obj : Option ℕ) (takeOwnership : Bool) (globalName : ℕ)
    (objects : Objects) (fb : FramebufferData) : Objects × FramebufferData :=
  let idx := attachmentPointIndex attachment
  let point := fb.attachPoints idx
  if name = 0 then detachObject idx objects fb
  else if point.target ≠ target ∨ point.name ≠ name ∨ point.obj ≠ obj ∨ point.owned ≠ takeOwnership then
    let (objects, fb) := detachObject idx objects fb
    let fb := { fb with
        attachPoints := Function.update fb.attachPoints idx ⟨target, name, globalName, obj, takeOwnership⟩
        dirty := true }
    let objects :=
      if target = GL_RENDERBUFFER then
        match obj with
        | some rb => objects.setReference rb fb.fbName attachment
        | none => objects
      else objects
    (objects, fb)
  else (objects, fb)

/-- The turns of the loop of the destructor. -/
def detachAll : ℕ → Objects → FramebufferData → Objects × FramebufferData
  | 0, objects, fb => (objects, fb)
  | n + 1, objects, fb =>
    let (objects, fb) := detachAll n objects fb
    detachObject n objects fb

section

variable (idx : ℕ) (objects : Objects) (fb : FramebufferData)

theorem renderbuffer_detachObject (rb : ℕ) : (detachObject idx objects fb).1.renderbuffer rb =
      if (fb.attachPoints idx).held = some rb then ⟨0, 0⟩ else objects.renderbuffer rb := by
  have howns (after : Objects) : (match (fb.attachPoints idx).owns with
      | some (target, name) => after.delete target name
      | none => after).renderbuffer = after.renderbuffer := by
    cases (fb.attachPoints idx).owns <;> rfl
  unfold detachObject
  simp only [howns]
  cases (fb.attachPoints idx).held with
  | none => rfl
  | some other =>
    simp only [Objects.setReference, Function.update_apply, Option.some.injEq, eq_comm]

theorem deleted_detachObject :
    (detachObject idx objects fb).1.deleted = (fb.attachPoints idx).owns.toList ++ objects.deleted := by
  unfold detachObject
  dsimp only
  cases (fb.attachPoints idx).held <;> cases (fb.attachPoints idx).owns <;> rfl

/-- An attach point gets other contents. -/
structure Replaces (attachment : ℕ) (point : AttachPoint) (objects' : Objects) (fb' : FramebufferData) : Prop where
  name : fb'.fbName = fb.fbName
  table : fb'.attachPoints = Function.update fb.attachPoints (attachmentPointIndex attachment) point
  attached : ∀ rb, point.held = some rb → objects'.renderbuffer rb = ⟨fb.fbName, attachment⟩
  detached : ∀ rb, point.held ≠ some rb → objects'.renderbuffer rb =
    if (fb.attachPoints (attachmentPointIndex attachment)).held = some rb then ⟨0, 0⟩ else objects.renderbuffer rb
  deleted : objects'.deleted = (fb.attachPoints (attachmentPointIndex attachment)).owns.toList ++ objects.deleted

/-- What is to be at the attach point. -/
def placed (target name : ℕ) (obj : Option ℕ) (takeOwnership : Bool) (globalName : ℕ) : AttachPoint :=
  if name = 0 then .empty else ⟨target, name, globalName, obj, takeOwnership⟩

/-- Nothing happens if it is there already. -/
theorem setAttachment_cases (attachment target name : ℕ) (obj : Option ℕ) (takeOwnership : Bool) (globalName : ℕ) :
    (setAttachment attachment target name obj takeOwnership globalName objects fb = (objects, fb) ∧
        ∃ global, fb.attachPoints (attachmentPointIndex attachment) = placed target name obj takeOwnership global) ∨
      Replaces objects fb attachment (placed target name obj takeOwnership globalName)
        (setAttachment attachment target name obj takeOwnership globalName objects fb).1
        (setAttachment attachment target name obj takeOwnership globalName objects fb).2 := by
  have hdetach := renderbuffer_detachObject (attachmentPointIndex attachment) objects fb
  have hdeleted := deleted_detachObject (attachmentPointIndex attachment) objects fb
  have htable (point : AttachPoint) :
      Function.update (detachObject (attachmentPointIndex attachment) objects fb).2.attachPoints
          (attachmentPointIndex attachment) point =
        Function.update fb.attachPoints (attachmentPointIndex attachment) point := Function.update_idem _ _ _
  unfold setAttachment placed
  dsimp only
  split_ifs with hname hdiffer hrenderbuffer
  · have hempty (rb : ℕ) : AttachPoint.empty.held ≠ some rb := (Option.some_ne_none rb).symm
    exact Or.inr ⟨rfl, rfl, fun rb hheld ↦ absurd hheld (hempty rb), fun rb _ ↦ hdetach rb, hdeleted⟩
  · have hpoint : AttachPoint.held ⟨target, name, globalName, obj, takeOwnership⟩ = obj := if_pos hrenderbuffer
    cases obj with
    | none =>
      refine Or.inr ⟨rfl, htable _, fun rb hheld ↦ ?_, fun rb _ ↦ hdetach rb, hdeleted⟩
      rw [hpoint] at hheld
      cases hheld
    | some other =>
      refine Or.inr ⟨rfl, htable _, fun rb hheld ↦ ?_, fun rb hheld ↦ ?_, hdeleted⟩
      · rw [hpoint] at hheld
        cases hheld
        exact Function.update_self _ _ _
      · rw [hpoint] at hheld
        have hne : rb ≠ other := fun heq ↦ hheld (congrArg some heq.symm)
        exact (Function.update_of_ne hne _ _).trans (hdetach rb)
  · refine Or.inr ⟨rfl, htable _, fun rb hheld ↦ ?_, fun rb _ ↦ hdetach rb, hdeleted⟩
    rw [AttachPoint.held, if_neg hrenderbuffer] at hheld
    cases hheld
  · obtain ⟨htarget, hnames, hobj, howned⟩ : _ ∧ _ ∧ _ ∧ _ := by
      simpa only [not_or, not_not] using hdiffer
    refine Or.inl ⟨rfl, (fb.attachPoints (attachmentPointIndex attachment)).globalName, ?_⟩
    rw [← htarget, ← hnames, ← hobj, ← howned]

end

/-- The destructor leaves no reference of a renderbuffer that the framebuffer holds. -/
theorem detachAll_spec (n : ℕ) (objects : Objects) (fb : FramebufferData) :
    (detachAll n objects fb).2.fbName = fb.fbName ∧
      (∀ idx, (detachAll n objects fb).2.attachPoints idx = if idx < n then .empty else fb.attachPoints idx) ∧
      ∀ rb, ((∃ idx < n, (fb.attachPoints idx).held = some rb) →
          (detachAll n objects fb).1.renderbuffer rb = ⟨0, 0⟩) ∧
        ((∀ idx < n, (fb.attachPoints idx).held ≠ some rb) →
          (detachAll n objects fb).1.renderbuffer rb = objects.renderbuffer rb) := by
  induction n with
  | zero =>
    refine ⟨rfl, fun idx ↦ (if_neg (Nat.not_lt_zero idx)).symm, fun rb ↦ ⟨?_, fun _ ↦ rfl⟩⟩
    rintro ⟨idx, hidx, _⟩
    exact absurd hidx (Nat.not_lt_zero idx)
  | succ n ih =>
    obtain ⟨hname, htable, hreferences⟩ := ih
    have hpoint : (detachAll n objects fb).2.attachPoints n = fb.attachPoints n :=
      (htable n).trans (if_neg (Nat.lt_irrefl n))
    refine ⟨hname, fun idx ↦ ?_, fun rb ↦ ?_⟩
    · change Function.update (detachAll n objects fb).2.attachPoints n .empty idx = _
      rw [Function.update_apply, htable]
      split_ifs <;> first | rfl | omega
    · have hlast := renderbuffer_detachObject n (detachAll n objects fb).1 (detachAll n objects fb).2 rb
      rw [hpoint] at hlast
      obtain ⟨hheld, hfree⟩ := hreferences rb
      rw [detachAll]
      refine ⟨?_, fun hnone ↦ ?_⟩
      · rintro ⟨idx, hidx, hrb⟩
        obtain hless | rfl := Nat.lt_succ_iff_lt_or_eq.mp hidx
        · rw [hlast, hheld ⟨idx, hless, hrb⟩, ite_self]
        · rw [hlast, if_pos hrb]
      · rw [hlast, if_neg (hnone n (Nat.lt_succ_self n))]
        exact hfree fun idx hidx ↦ hnone idx (Nat.lt_succ_of_lt hidx)

end FdeEmugl.Framebuffers

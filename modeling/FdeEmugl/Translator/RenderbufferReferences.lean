import Mathlib.Data.List.Count
import FdeEmugl.Library.Runs
import FdeEmugl.Translator.FramebufferData

/-!
# The references of renderbuffers

A renderbuffer refers to the attachment that was made last. When it is detached from one of several attach points
the reference is lost. Otherwise it is at one of the attach points that hold the renderbuffer, if there is one. What
a framebuffer owns is deleted once.
-/

namespace FdeEmugl.Framebuffers

open Runs
open Function (update_of_ne update_self)

/-! ## All framebuffers -/

/-- The framebuffers that are there. `taken` are the objects of the host that framebuffers have come to own. -/
structure AllFramebuffers where
  framebuffer : ℕ → Option FramebufferData
  objects : Objects
  taken : List (ℕ × ℕ)

/-- Framebuffers and renderbuffers are known by their objects. Several framebuffers may have one name. -/
inductive FramebufferLabel where
  | create (id name globalName : ℕ)
  | setAttachment (id attachment target name : ℕ) (obj : Option ℕ) (takeOwnership : Bool) (globalName : ℕ)
  | destroy (id : ℕ)
deriving DecidableEq

namespace AllFramebuffers

def init : AllFramebuffers := ⟨fun _ ↦ none, ⟨fun _ ↦ ⟨0, 0⟩, []⟩, []⟩

def put (s : AllFramebuffers) (id : ℕ) (fb : Option FramebufferData) (objects : Objects) : AllFramebuffers :=
  { s with framebuffer := Function.update s.framebuffer id fb, objects }

/-- The host has made an object that is to be owned: its name is not in use. -/
def made (s : AllFramebuffers) (target name : ℕ) : Bool :=
  name ≠ 0 ∧ (target = GL_RENDERBUFFER ∨ target = GL_TEXTURE_2D) ∧
    s.taken.count (target, name) = s.objects.deleted.count (target, name)

end AllFramebuffers

def framebufferStep : FramebufferLabel → AllFramebuffers → Option AllFramebuffers
  | .create id name globalName, s =>
    if (s.framebuffer id).isSome ∨ name = 0 then none else some (s.put id (some (.new name globalName)) s.objects)
  | .setAttachment id attachment target name obj takeOwnership globalName, s =>
    (s.framebuffer id).bind fun fb ↦
      if !framebufferAttachment attachment ∨ takeOwnership ∧ !s.made target name then none
      else
        let (objects, fb) := setAttachment attachment target name obj takeOwnership globalName s.objects fb
        let s := s.put id (some fb) objects
        some (if takeOwnership then { s with taken := (target, name) :: s.taken } else s)
  | .destroy id, s =>
    (s.framebuffer id).map fun fb ↦ s.put id none (detachAll MAX_ATTACH_POINTS s.objects fb).1

namespace AllFramebuffers

variable {s : AllFramebuffers} {id idx : ℕ} {fb : FramebufferData} {objects : Objects}

/-! ### What is attached -/

/-- A point of the table of a framebuffer that is there. -/
def At (s : AllFramebuffers) (id idx : ℕ) (point : AttachPoint) : Prop :=
  ∃ fb, s.framebuffer id = some fb ∧ idx < MAX_ATTACH_POINTS ∧ fb.attachPoints idx = point

/-- The point holds the renderbuffer. -/
def Holds (s : AllFramebuffers) (id idx rb : ℕ) : Prop := ∃ point, s.At id idx point ∧ point.held = some rb

/-- The point owns the object of the host. -/
def Owns (s : AllFramebuffers) (id idx : ℕ) (object : ℕ × ℕ) : Prop :=
  ∃ point, s.At id idx point ∧ point.owns = some object

variable {fb' : FramebufferData} {point : AttachPoint} {id' idx' rb : ℕ} {object : ℕ × ℕ}
  {next : Option FramebufferData}

section

variable (hfb : s.framebuffer id = some fb) (hidx : idx < MAX_ATTACH_POINTS)
  (htable : fb'.attachPoints = Function.update fb.attachPoints idx point)
include hfb hidx htable

theorem at_put {point' : AttachPoint} : (s.put id (some fb') objects).At id' idx' point' ↔
      (id' = id ∧ idx' = idx) ∧ point = point' ∨ ¬(id' = id ∧ idx' = idx) ∧ s.At id' idx' point' := by
  change (∃ other, Function.update s.framebuffer id (some fb') id' = some other ∧ _) ↔ _
  by_cases hid : id' = id
  · subst hid
    rw [update_self]
    by_cases hsame : idx' = idx
    · subst hsame
      constructor
      · rintro ⟨other, hother, _, hpoint⟩
        cases hother
        rw [htable, update_self] at hpoint
        exact Or.inl ⟨⟨rfl, rfl⟩, hpoint⟩
      · rintro (⟨_, hpoint⟩ | ⟨hnot, _⟩)
        · refine ⟨fb', rfl, hidx, ?_⟩
          rw [htable, update_self, hpoint]
        · exact absurd ⟨rfl, rfl⟩ hnot
    · simp only [hsame, and_false, false_and, not_false_eq_true, true_and, false_or]
      constructor
      · rintro ⟨other, hother, hlt, hpoint⟩
        cases hother
        rw [htable, update_of_ne hsame] at hpoint
        exact ⟨fb, hfb, hlt, hpoint⟩
      · rintro ⟨other, hother, hlt, hpoint⟩
        cases hfb.symm.trans hother
        refine ⟨fb', rfl, hlt, ?_⟩
        rw [htable, update_of_ne hsame, hpoint]
  · rw [update_of_ne hid]
    simp only [hid, false_and, not_false_eq_true, true_and, false_or]
    rfl

theorem holds_put : (s.put id (some fb') objects).Holds id' idx' rb ↔
      (id' = id ∧ idx' = idx) ∧ point.held = some rb ∨ ¬(id' = id ∧ idx' = idx) ∧ s.Holds id' idx' rb := by
  simp only [Holds, at_put hfb hidx htable]
  grind

theorem owns_put : (s.put id (some fb') objects).Owns id' idx' object ↔
      (id' = id ∧ idx' = idx) ∧ point.owns = some object ∨ ¬(id' = id ∧ idx' = idx) ∧ s.Owns id' idx' object := by
  simp only [Owns, at_put hfb hidx htable]
  grind

end

section

variable (hfb : s.framebuffer id = some fb)
include hfb

theorem at_iff : s.At id idx point ↔ idx < MAX_ATTACH_POINTS ∧ fb.attachPoints idx = point := by
  constructor
  · rintro ⟨other, hother, hlt, hpoint⟩
    cases hfb.symm.trans hother
    exact ⟨hlt, hpoint⟩
  · rintro ⟨hlt, hpoint⟩
    exact ⟨fb, hfb, hlt, hpoint⟩

theorem holds_iff : s.Holds id idx rb ↔ idx < MAX_ATTACH_POINTS ∧ (fb.attachPoints idx).held = some rb := by
  simp only [Holds, at_iff hfb]
  grind

theorem owns_iff : s.Owns id idx object ↔ idx < MAX_ATTACH_POINTS ∧ (fb.attachPoints idx).owns = some object := by
  simp only [Owns, at_iff hfb]
  grind

end

/-! ### The references -/

/-- The reference of a renderbuffer is that of a point which holds it. -/
def Refers (s : AllFramebuffers) (rb : ℕ) : Prop :=
  ∃ id fb, s.framebuffer id = some fb ∧ fb.fbName = (s.objects.renderbuffer rb).attachedFB ∧
    framebufferAttachment (s.objects.renderbuffer rb).attachedPoint = true ∧
    s.Holds id (attachmentPointIndex (s.objects.renderbuffer rb).attachedPoint) rb

/-- A renderbuffer has a reference exactly if a framebuffer holds it, and then the reference is right. -/
def BackReferences (s : AllFramebuffers) : Prop :=
  ∀ rb, ((s.objects.renderbuffer rb).attachedFB ≠ 0 ↔ ∃ id idx, s.Holds id idx rb) ∧
    ((s.objects.renderbuffer rb).attachedFB ≠ 0 → s.Refers rb)

/-- No renderbuffer is detached from one of several points, unless it comes to the same point again. -/
def KeepsReferences : FramebufferLabel → AllFramebuffers → Prop
  | .create .., _ => True
  | .setAttachment id attachment target name obj takeOwnership globalName, s =>
    ∀ rb, s.Holds id (attachmentPointIndex attachment) rb →
      (placed target name obj takeOwnership globalName).held ≠ some rb →
        ∀ id' idx', s.Holds id' idx' rb → id' = id ∧ idx' = attachmentPointIndex attachment
  | .destroy id, s => ∀ idx rb, s.Holds id idx rb → ∀ id' idx', s.Holds id' idx' rb → id' = id

/-- Every framebuffer has a name, as callers promise. -/
def Named (s : AllFramebuffers) : Prop := ∀ id fb, s.framebuffer id = some fb → fb.fbName ≠ 0

theorem put_self (hfb : s.framebuffer id = some fb) : s.put id (some fb) s.objects = s := by
  unfold put
  rw [← hfb, Function.update_eq_self]

theorem Named.put (h : s.Named) (hnext : ∀ fb, next = some fb → fb.fbName ≠ 0) : (s.put id next objects).Named := by
  intro id' fb' hfb'
  change Function.update s.framebuffer id next id' = some fb' at hfb'
  by_cases hid : id' = id
  · rw [hid, update_self] at hfb'
    exact hnext fb' hfb'
  · rw [update_of_ne hid] at hfb'
    exact h id' fb' hfb'

theorem BackReferences.replace (h : s.BackReferences) (hnamed : s.Named) (hfb : s.framebuffer id = some fb)
    {attachment : ℕ} (hvalid : framebufferAttachment attachment = true)
    (hreplaces : Replaces s.objects fb attachment point objects fb')
    (hkeeps : ∀ rb, s.Holds id (attachmentPointIndex attachment) rb → point.held ≠ some rb → ∀ id' idx', s.Holds id' idx' rb → id' = id ∧ idx' = attachmentPointIndex attachment) :
    (s.put id (some fb') objects).BackReferences := by
  have hidx := attachmentPointIndex_lt hvalid
  have hthere : (s.put id (some fb') objects).framebuffer id = some fb' := update_self _ _ _
  intro rb
  obtain ⟨hreference, hrefers⟩ := h rb
  simp only [holds_put hfb hidx hreplaces.table]
  change ((objects.renderbuffer rb).attachedFB ≠ 0 ↔ _) ∧ ((objects.renderbuffer rb).attachedFB ≠ 0 → _)
  by_cases hheld : point.held = some rb
  · have hlast := hreplaces.attached rb hheld
    rw [hlast]
    refine ⟨iff_of_true (hnamed id fb hfb) ⟨id, _, Or.inl ⟨⟨rfl, rfl⟩, hheld⟩⟩, fun _ ↦ ⟨id, fb', hthere, ?_⟩⟩
    change fb'.fbName = (objects.renderbuffer rb).attachedFB ∧
      framebufferAttachment (objects.renderbuffer rb).attachedPoint = true ∧
      (s.put id (some fb') objects).Holds id (attachmentPointIndex (objects.renderbuffer rb).attachedPoint) rb
    rw [hlast]
    exact ⟨hreplaces.name, hvalid, (holds_put hfb hidx hreplaces.table).mpr (Or.inl ⟨⟨rfl, rfl⟩, hheld⟩)⟩
  · have hlast := hreplaces.detached rb hheld
    by_cases hold : (fb.attachPoints (attachmentPointIndex attachment)).held = some rb
    · rw [hlast, if_pos hold]
      have hnone : ¬∃ id' idx', (id' = id ∧ idx' = attachmentPointIndex attachment) ∧ point.held = some rb ∨
          ¬(id' = id ∧ idx' = attachmentPointIndex attachment) ∧ s.Holds id' idx' rb := by
        rintro ⟨id', idx', ⟨_, hpoint⟩ | ⟨hnot, hother⟩⟩
        · exact hheld hpoint
        · exact hnot (hkeeps rb ((holds_iff hfb).mpr ⟨hidx, hold⟩) hheld id' idx' hother)
      exact ⟨iff_of_false (fun hne ↦ hne rfl) hnone, fun hne ↦ absurd rfl hne⟩
    · have hnot (id' idx' : ℕ) (hrb : s.Holds id' idx' rb) :
          ¬(id' = id ∧ idx' = attachmentPointIndex attachment) := by
        rintro ⟨rfl, rfl⟩
        exact hold ((holds_iff hfb).mp hrb).2
      rw [if_neg hold] at hlast
      rw [hlast]
      refine ⟨hreference.trans ⟨?_, ?_⟩, fun hne ↦ ?_⟩
      · rintro ⟨id', idx', hrb⟩
        exact ⟨id', idx', Or.inr ⟨hnot id' idx' hrb, hrb⟩⟩
      · rintro ⟨id', idx', ⟨_, hpoint⟩ | ⟨_, hrb⟩⟩
        · exact absurd hpoint hheld
        · exact ⟨id', idx', hrb⟩
      · obtain ⟨id', other, hother, hname, hpoint, hrb⟩ := hrefers hne
        have hafter : (s.put id (some fb') objects).Holds id'
            (attachmentPointIndex (s.objects.renderbuffer rb).attachedPoint) rb :=
          (holds_put hfb hidx hreplaces.table).mpr (Or.inr ⟨hnot _ _ hrb, hrb⟩)
        by_cases hid : id' = id
        · subst hid
          cases hfb.symm.trans hother
          refine ⟨id', fb', hthere, ?_⟩
          change fb'.fbName = (objects.renderbuffer rb).attachedFB ∧
            framebufferAttachment (objects.renderbuffer rb).attachedPoint = true ∧ _
          rw [hlast]
          exact ⟨hreplaces.name.trans hname, hpoint, hlast ▸ hafter⟩
        · refine ⟨id', other, (update_of_ne hid _ _).trans hother, ?_⟩
          change other.fbName = (objects.renderbuffer rb).attachedFB ∧
            framebufferAttachment (objects.renderbuffer rb).attachedPoint = true ∧ _
          rw [hlast]
          exact ⟨hname, hpoint, hlast ▸ hafter⟩

/-- Other framebuffers are as they were. -/
theorem at_put_of_ne (hid : id' ≠ id) : (s.put id next objects).At id' idx point ↔ s.At id' idx point := by
  change (∃ fb, Function.update s.framebuffer id next id' = some fb ∧ _) ↔ _
  rw [update_of_ne hid]
  rfl

section

variable (hfree : ∀ fb, next = some fb → ∀ idx < MAX_ATTACH_POINTS, fb.attachPoints idx = .empty)
include hfree

/-- The framebuffer that is put holds and owns nothing. -/
theorem at_put_of_free (hpoint : point ≠ .empty) :
    (s.put id next objects).At id' idx point ↔ id' ≠ id ∧ s.At id' idx point := by
  by_cases hid : id' = id
  · subst hid
    refine iff_of_false ?_ fun hne ↦ hne.1 rfl
    rintro ⟨fb, hfb, hidx, rfl⟩
    change Function.update s.framebuffer id' next id' = some fb at hfb
    rw [update_self] at hfb
    exact hpoint (hfree fb hfb idx hidx)
  · rw [at_put_of_ne hid]
    exact (and_iff_right hid).symm

theorem holds_put_of_free : (s.put id next objects).Holds id' idx rb ↔ id' ≠ id ∧ s.Holds id' idx rb := by
  constructor
  · rintro ⟨point, hpoint, hheld⟩
    have hne : point ≠ .empty := fun hempty ↦ absurd hheld (hempty ▸ (Option.some_ne_none rb).symm)
    obtain ⟨hid, hbefore⟩ := (at_put_of_free hfree hne).mp hpoint
    exact ⟨hid, point, hbefore, hheld⟩
  · rintro ⟨hid, point, hpoint, hheld⟩
    exact ⟨point, (at_put_of_ne hid).mpr hpoint, hheld⟩

theorem owns_put_of_free : (s.put id next objects).Owns id' idx object ↔ id' ≠ id ∧ s.Owns id' idx object := by
  constructor
  · rintro ⟨point, hpoint, howns⟩
    have hne : point ≠ .empty := fun hempty ↦ absurd howns (hempty ▸ (Option.some_ne_none object).symm)
    obtain ⟨hid, hbefore⟩ := (at_put_of_free hfree hne).mp hpoint
    exact ⟨hid, point, hbefore, howns⟩
  · rintro ⟨hid, point, hpoint, howns⟩
    exact ⟨point, (at_put_of_ne hid).mpr hpoint, howns⟩

end

/-- A framebuffer without attachments comes or goes, and no renderbuffer that another holds loses its reference. -/
theorem BackReferences.put_free (h : s.BackReferences)
    (hfree : ∀ fb, next = some fb → ∀ idx < MAX_ATTACH_POINTS, fb.attachPoints idx = .empty)
    (hgone : ∀ rb, (∃ idx, s.Holds id idx rb) → objects.renderbuffer rb = ⟨0, 0⟩ ∧ ∀ id' idx', s.Holds id' idx' rb → id' = id)
    (hothers : ∀ rb, (∀ idx, ¬s.Holds id idx rb) → objects.renderbuffer rb = s.objects.renderbuffer rb) :
    (s.put id next objects).BackReferences := by
  intro rb
  obtain ⟨hreference, hrefers⟩ := h rb
  simp only [holds_put_of_free hfree]
  change ((objects.renderbuffer rb).attachedFB ≠ 0 ↔ _) ∧ ((objects.renderbuffer rb).attachedFB ≠ 0 → _)
  by_cases hheld : ∃ idx, s.Holds id idx rb
  · obtain ⟨hlast, honly⟩ := hgone rb hheld
    rw [hlast]
    refine ⟨iff_of_false (fun hne ↦ hne rfl) ?_, fun hne ↦ absurd rfl hne⟩
    rintro ⟨id', idx', hid, hrb⟩
    exact hid (honly id' idx' hrb)
  · have hlast := hothers rb fun idx hrb ↦ hheld ⟨idx, hrb⟩
    have hnot (id' idx' : ℕ) (hrb : s.Holds id' idx' rb) : id' ≠ id := by
      rintro rfl
      exact hheld ⟨idx', hrb⟩
    rw [hlast]
    refine ⟨hreference.trans ⟨?_, ?_⟩, fun hne ↦ ?_⟩
    · rintro ⟨id', idx', hrb⟩
      exact ⟨id', idx', hnot id' idx' hrb, hrb⟩
    · rintro ⟨id', idx', _, hrb⟩
      exact ⟨id', idx', hrb⟩
    · obtain ⟨id', other, hother, hname, hpoint, hrb⟩ := hrefers hne
      have hid := hnot id' _ hrb
      refine ⟨id', other, (update_of_ne hid _ _).trans hother, ?_⟩
      change other.fbName = (objects.renderbuffer rb).attachedFB ∧
        framebufferAttachment (objects.renderbuffer rb).attachedPoint = true ∧
        (s.put id next objects).Holds id' (attachmentPointIndex (objects.renderbuffer rb).attachedPoint) rb
      rw [hlast]
      exact ⟨hname, hpoint, (holds_put_of_free hfree).mpr ⟨hid, hrb⟩⟩

/-! ### What is owned -/

/-- An object of the host has at most one owner. It has been deleted as often as it has been taken, but for the
last time if it still has an owner. -/
structure OwnedOnce (s : AllFramebuffers) : Prop where
  unique : ∀ id idx id' idx' object, s.Owns id idx object → s.Owns id' idx' object → id' = id ∧ idx' = idx
  held : ∀ id idx object, s.Owns id idx object → s.taken.count object = s.objects.deleted.count object + 1
  gone : ∀ object, (∀ id idx, ¬s.Owns id idx object) → s.taken.count object = s.objects.deleted.count object

theorem count_owned (point : AttachPoint) (deleted : List (ℕ × ℕ)) (object : ℕ × ℕ) :
    (point.owns.toList ++ deleted).count object =
      deleted.count object + if point.owns = some object then 1 else 0 := by
  cases hpoint : point.owns with
  | none => rfl
  | some other =>
    rw [Option.toList_some, List.singleton_append, List.count_cons]
    simp only [Option.some.injEq, beq_iff_eq]

/-- What was owned at one point is deleted. What is owned there instead has just been taken. -/
theorem OwnedOnce.replace (h : s.OwnedOnce) {after : AllFramebuffers} {old : AttachPoint}
    (hold : ∀ object, s.Owns id idx object ↔ old.owns = some object)
    (howns : ∀ id' idx' object, after.Owns id' idx' object ↔ (id' = id ∧ idx' = idx) ∧ point.owns = some object ∨ ¬(id' = id ∧ idx' = idx) ∧ s.Owns id' idx' object)
    (htaken : after.taken = point.owns.toList ++ s.taken)
    (hdeleted : after.objects.deleted = old.owns.toList ++ s.objects.deleted)
    (hfresh : ∀ object, point.owns = some object → s.taken.count object = s.objects.deleted.count object) :
    after.OwnedOnce := by
  have hnone (object : ℕ × ℕ) (hpoint : point.owns = some object) (id' idx' : ℕ) : ¬s.Owns id' idx' object := by
    intro hother
    have hheld := h.held id' idx' object hother
    have hmade := hfresh object hpoint
    omega
  refine ⟨fun id₁ idx₁ id₂ idx₂ object hfirst hsecond ↦ ?_, fun id' idx' object hobject ↦ ?_, fun object hobject ↦ ?_⟩
  · obtain ⟨⟨rfl, rfl⟩, hpoint⟩ | ⟨hnot, hfirst⟩ := (howns id₁ idx₁ object).mp hfirst
    · obtain ⟨hsame, _⟩ | ⟨_, hother⟩ := (howns id₂ idx₂ object).mp hsecond
      · exact hsame
      · exact absurd hother (hnone object hpoint _ _)
    · obtain ⟨_, hpoint⟩ | ⟨_, hsecond⟩ := (howns id₂ idx₂ object).mp hsecond
      · exact absurd hfirst (hnone object hpoint _ _)
      · exact h.unique id₁ idx₁ id₂ idx₂ object hfirst hsecond
  · rw [htaken, hdeleted, count_owned, count_owned]
    obtain ⟨_, hpoint⟩ | ⟨hnot, hother⟩ := (howns id' idx' object).mp hobject
    · have hgone : ¬old.owns = some object := fun hsome ↦ hnone object hpoint id idx ((hold object).mpr hsome)
      rw [if_pos hpoint, if_neg hgone, hfresh object hpoint]
    · have hnew : ¬point.owns = some object := fun hpoint ↦ hnone object hpoint id' idx' hother
      have hgone : ¬old.owns = some object := fun hsome ↦
        hnot (h.unique id idx id' idx' object ((hold object).mpr hsome) hother)
      rw [if_neg hnew, if_neg hgone]
      exact h.held id' idx' object hother
  · rw [htaken, hdeleted, count_owned, count_owned]
    have hnew : ¬point.owns = some object := fun hpoint ↦
      hobject id idx ((howns id idx object).mpr (Or.inl ⟨⟨rfl, rfl⟩, hpoint⟩))
    rw [if_neg hnew, Nat.add_zero]
    by_cases hsome : old.owns = some object
    · rw [if_pos hsome]
      exact h.held id idx object ((hold object).mpr hsome)
    · rw [if_neg hsome, Nat.add_zero]
      refine h.gone object fun id' idx' hother ↦ ?_
      refine hobject id' idx' ((howns id' idx' object).mpr (Or.inr ⟨?_, hother⟩))
      rintro ⟨rfl, rfl⟩
      exact hsome ((hold object).mp hother)

theorem OwnedOnce.detachObject (h : s.OwnedOnce) (hfb : s.framebuffer id = some fb) (hidx : idx < MAX_ATTACH_POINTS) :
    (s.put id (some (detachObject idx s.objects fb).2) (detachObject idx s.objects fb).1).OwnedOnce := by
  have htable : (Framebuffers.detachObject idx s.objects fb).2.attachPoints =
      Function.update fb.attachPoints idx .empty := rfl
  refine h.replace (fun object ↦ ?_) (fun id' idx' object ↦ owns_put hfb hidx htable) rfl
    (deleted_detachObject idx s.objects fb) (fun object hobject ↦ absurd hobject (Option.some_ne_none object).symm)
  rw [owns_iff hfb]
  exact and_iff_right hidx

/-- The turns of the destructor. -/
theorem OwnedOnce.detachAll (h : s.OwnedOnce) (hfb : s.framebuffer id = some fb) {n : ℕ}
    (hn : n ≤ MAX_ATTACH_POINTS) :
    (s.put id (some (detachAll n s.objects fb).2) (detachAll n s.objects fb).1).OwnedOnce := by
  induction n with
  | zero => exact (put_self hfb).symm ▸ h
  | succ n ih =>
    have hput (next next' : Option FramebufferData) (objects objects' : Objects) :
        (s.put id next objects).put id next' objects' = s.put id next' objects' := by
      simp only [put, Function.update_idem]
    have hthere : (s.put id (some (Framebuffers.detachAll n s.objects fb).2)
        (Framebuffers.detachAll n s.objects fb).1).framebuffer id = some (Framebuffers.detachAll n s.objects fb).2 :=
      update_self _ _ _
    have hstep := (ih (Nat.le_of_succ_le hn)).detachObject hthere (Nat.lt_of_succ_le hn)
    rw [hput] at hstep
    exact hstep

/-- A framebuffer without attachments comes or goes. -/
theorem OwnedOnce.put_free (h : s.OwnedOnce)
    (hfree : ∀ fb, next = some fb → ∀ idx < MAX_ATTACH_POINTS, fb.attachPoints idx = .empty)
    (hnone : ∀ idx object, ¬s.Owns id idx object) : (s.put id next s.objects).OwnedOnce := by
  have howns (id' idx' : ℕ) (object : ℕ × ℕ) :
      (s.put id next s.objects).Owns id' idx' object ↔ s.Owns id' idx' object := by
    rw [owns_put_of_free hfree]
    refine and_iff_right_of_imp fun hobject ↦ ?_
    rintro rfl
    exact hnone idx' object hobject
  refine ⟨fun id₁ idx₁ id₂ idx₂ object hfirst hsecond ↦ ?_, fun id' idx' object hobject ↦ ?_, fun object hobject ↦ ?_⟩
  · exact h.unique id₁ idx₁ id₂ idx₂ object ((howns _ _ _).mp hfirst) ((howns _ _ _).mp hsecond)
  · exact h.held id' idx' object ((howns _ _ _).mp hobject)
  · exact h.gone object fun id' idx' hother ↦ hobject id' idx' ((howns _ _ _).mpr hother)

/-! ### Runs -/

/-- The invariant. -/
structure Sound (s : AllFramebuffers) : Prop where
  named : s.Named
  references : s.BackReferences
  owned : s.OwnedOnce

theorem not_at_of_none (hnone : s.framebuffer id = none) (point : AttachPoint) : ¬s.At id idx point := by
  rintro ⟨fb, hfb, _⟩
  rw [hnone] at hfb
  cases hfb

theorem Sound.create (h : s.Sound) (hnone : s.framebuffer id = none) {name : ℕ} (hname : name ≠ 0) (globalName : ℕ) :
    (s.put id (some (.new name globalName)) s.objects).Sound := by
  have hfree (fb : FramebufferData) (hfb : some (.new name globalName) = some fb) (idx : ℕ)
      (_ : idx < MAX_ATTACH_POINTS) : fb.attachPoints idx = .empty := by
    cases hfb
    rfl
  have hunheld (idx rb : ℕ) : ¬s.Holds id idx rb := fun ⟨point, hpoint, _⟩ ↦ not_at_of_none hnone point hpoint
  have hunowned (idx : ℕ) (object : ℕ × ℕ) : ¬s.Owns id idx object :=
    fun ⟨point, hpoint, _⟩ ↦ not_at_of_none hnone point hpoint
  refine ⟨h.named.put fun fb hfb ↦ ?_, h.references.put_free hfree ?_ fun rb _ ↦ rfl, h.owned.put_free hfree hunowned⟩
  · cases hfb
    exact hname
  · rintro rb ⟨idx, hrb⟩
    exact absurd hrb (hunheld idx rb)

theorem Sound.setAttachment (h : s.Sound) (hfb : s.framebuffer id = some fb) {attachment target name : ℕ}
    {obj : Option ℕ} {takeOwnership : Bool} {globalName : ℕ} (hvalid : framebufferAttachment attachment = true)
    (hmade : takeOwnership = true → s.made target name = true)
    (hkeeps : KeepsReferences (.setAttachment id attachment target name obj takeOwnership globalName) s) :
    let after := Framebuffers.setAttachment attachment target name obj takeOwnership globalName s.objects fb
    Sound (if takeOwnership then { s.put id (some after.2) after.1 with taken := (target, name) :: s.taken }
      else s.put id (some after.2) after.1) := by
  intro after
  have hidx := attachmentPointIndex_lt hvalid
  have hplaced (global : ℕ) : (placed target name obj takeOwnership global).owns =
      if takeOwnership then some (target, name) else none := by
    cases takeOwnership with
    | false =>
      rw [if_neg Bool.false_ne_true, placed]
      split_ifs <;> rfl
    | true =>
      obtain ⟨hname, htarget, _⟩ := of_decide_eq_true (hmade rfl)
      rw [placed, if_neg hname]
      exact if_pos ⟨rfl, htarget⟩
  have hfresh (object : ℕ × ℕ) (hobject : (placed target name obj takeOwnership globalName).owns = some object) :
      s.taken.count object = s.objects.deleted.count object := by
    rw [hplaced] at hobject
    obtain ⟨htake, hsame⟩ := Option.ite_none_right_eq_some.mp hobject
    cases hsame
    exact (of_decide_eq_true (hmade htake)).2.2
  obtain ⟨hsame, global, hpoint⟩ | hreplaces :=
    setAttachment_cases s.objects fb attachment target name obj takeOwnership globalName
  · cases takeOwnership with
    | false =>
      rw [if_neg Bool.false_ne_true]
      change (s.put id (some (Framebuffers.setAttachment attachment target name obj false globalName s.objects fb).2)
        (Framebuffers.setAttachment attachment target name obj false globalName s.objects fb).1).Sound
      rw [hsame, put_self hfb]
      exact h
    | true =>
      have howned : s.Owns id (attachmentPointIndex attachment) (target, name) :=
        (owns_iff hfb).mpr ⟨hidx, by rw [hpoint, hplaced, if_pos rfl]⟩
      have hcount := h.owned.held _ _ _ howned
      have hmadeCount := (of_decide_eq_true (hmade rfl)).2.2
      omega
  · have hnamed : (s.put id (some after.2) after.1).Named := h.named.put fun other hother ↦ by
      cases hother
      exact hreplaces.name ▸ h.named id fb hfb
    have hreferences := h.references.replace h.named hfb hvalid hreplaces hkeeps
    have howns (id' idx' : ℕ) (object : ℕ × ℕ) : (s.put id (some after.2) after.1).Owns id' idx' object ↔ _ :=
      owns_put hfb hidx hreplaces.table
    have howned : OwnedOnce { s.put id (some after.2) after.1 with
        taken := (placed target name obj takeOwnership globalName).owns.toList ++ s.taken } :=
      h.owned.replace (fun object ↦ (owns_iff hfb).trans (and_iff_right hidx)) howns rfl hreplaces.deleted hfresh
    rw [hplaced] at howned
    cases takeOwnership with
    | false => exact ⟨hnamed, hreferences, howned⟩
    | true => exact ⟨hnamed, hreferences, howned⟩

theorem Sound.destroy (h : s.Sound) (hfb : s.framebuffer id = some fb) (hkeeps : KeepsReferences (.destroy id) s) :
    (s.put id none (detachAll MAX_ATTACH_POINTS s.objects fb).1).Sound := by
  obtain ⟨hname, htable, hreferences⟩ := detachAll_spec MAX_ATTACH_POINTS s.objects fb
  have hfree (other : FramebufferData) (hother : none = some other) (idx : ℕ) (_ : idx < MAX_ATTACH_POINTS) :
      other.attachPoints idx = .empty := absurd hother (Option.some_ne_none other).symm
  refine ⟨h.named.put fun other hother ↦ absurd hother (Option.some_ne_none other).symm, ?_, ?_⟩
  · refine h.references.put_free hfree (fun rb ⟨idx, hrb⟩ ↦ ⟨?_, hkeeps idx rb hrb⟩) fun rb hrb ↦ ?_
    · exact (hreferences rb).1 ⟨idx, (holds_iff hfb).mp hrb⟩
    · refine (hreferences rb).2 fun idx hidx hheld ↦ hrb idx ((holds_iff hfb).mpr ⟨hidx, hheld⟩)
  · have hall := h.owned.detachAll hfb (Nat.le_refl MAX_ATTACH_POINTS)
    have hthere : (s.put id (some (detachAll MAX_ATTACH_POINTS s.objects fb).2)
        (detachAll MAX_ATTACH_POINTS s.objects fb).1).framebuffer id =
          some (detachAll MAX_ATTACH_POINTS s.objects fb).2 := update_self _ _ _
    have hnone (idx : ℕ) (object : ℕ × ℕ) : ¬(s.put id (some (detachAll MAX_ATTACH_POINTS s.objects fb).2)
          (detachAll MAX_ATTACH_POINTS s.objects fb).1).Owns id idx object := by
      rw [owns_iff hthere]
      rintro ⟨hidx, hobject⟩
      rw [htable, if_pos hidx] at hobject
      cases hobject
    have hput (next next' : Option FramebufferData) (objects objects' : Objects) :
        (s.put id next objects).put id next' objects' = s.put id next' objects' := by
      simp only [put, Function.update_idem]
    have hlast := hall.put_free hfree hnone
    rw [hput] at hlast
    exact hlast

end AllFramebuffers

theorem sound_step (label : FramebufferLabel) (s after : AllFramebuffers) (h : s.Sound)
    (hkeeps : AllFramebuffers.KeepsReferences label s) (hstep : framebufferStep label s = some after) :
    after.Sound := by
  cases label with
  | create id name globalName =>
    obtain ⟨hcan, hsome⟩ := Option.ite_none_left_eq_some.mp hstep
    cases hsome
    obtain ⟨hnone, hname⟩ := not_or.mp hcan
    exact h.create (Option.not_isSome_iff_eq_none.mp hnone) hname globalName
  | setAttachment id attachment target name obj takeOwnership globalName =>
    obtain ⟨fb, hfb, hbranch⟩ := Option.bind_eq_some_iff.mp hstep
    obtain ⟨hcan, hsome⟩ := Option.ite_none_left_eq_some.mp hbranch
    obtain ⟨hvalid, hmade⟩ := not_or.mp hcan
    rw [Bool.not_eq_true', Bool.not_eq_false] at hvalid
    rw [← Option.some.inj hsome]
    refine h.setAttachment hfb hvalid (fun htake ↦ ?_) hkeeps
    by_contra hnot
    exact hmade ⟨htake, by simpa only [Bool.not_eq_true', Bool.not_eq_true] using hnot⟩
  | destroy id =>
    obtain ⟨fb, hfb, rfl⟩ := Option.map_eq_some_iff.mp hstep
    exact h.destroy hfb hkeeps

theorem sound_init : AllFramebuffers.init.Sound := by
  have hnone (id idx : ℕ) (point : AttachPoint) : ¬AllFramebuffers.init.At id idx point :=
    AllFramebuffers.not_at_of_none rfl point
  refine ⟨fun id fb hfb ↦ absurd hfb (Option.some_ne_none fb).symm, fun rb ↦ ⟨?_, fun hne ↦ absurd rfl hne⟩, ?_⟩
  · refine iff_of_false (fun hne ↦ hne rfl) ?_
    rintro ⟨id, idx, point, hpoint, _⟩
    exact hnone id idx point hpoint
  · refine ⟨?_, ?_, fun _ _ ↦ rfl⟩
    · rintro id idx _ _ _ ⟨point, hpoint, _⟩
      exact absurd hpoint (hnone id idx point)
    · rintro id idx _ ⟨point, hpoint, _⟩
      exact absurd hpoint (hnone id idx point)

/-- As long as no renderbuffer is detached from one of several points, every renderbuffer has a reference exactly if
it is attached, and the right one. What framebuffers own is deleted once. -/
theorem references_right {labels : List FramebufferLabel} {s : AllFramebuffers}
    (hkeeps : Guarded framebufferStep AllFramebuffers.KeepsReferences .init labels)
    (hrun : run framebufferStep .init labels = some s) : s.BackReferences ∧ s.OwnedOnce := by
  have hsound := invariant_of_guarded AllFramebuffers.Sound sound_step sound_init hkeeps hrun
  exact ⟨hsound.references, hsound.owned⟩

/-- A renderbuffer comes to two points of a framebuffer. -/
def sharing : List FramebufferLabel :=
  [.create 0 1 10, .setAttachment 0 GL_DEPTH_ATTACHMENT GL_RENDERBUFFER 5 (some 7) false 50,
    .setAttachment 0 GL_STENCIL_ATTACHMENT GL_RENDERBUFFER 5 (some 7) false 50]

/-- Nothing is detached. -/
theorem keepsReferences_of_free {s : AllFramebuffers} {id attachment target name : ℕ} {obj : Option ℕ}
    {takeOwnership : Bool} {globalName : ℕ}
    (hfree : (s.framebuffer id).all fun fb ↦ (fb.attachPoints (attachmentPointIndex attachment)).held = none) :
    AllFramebuffers.KeepsReferences (.setAttachment id attachment target name obj takeOwnership globalName) s := by
  rintro rb ⟨point, ⟨fb, hfb, _, rfl⟩, hheld⟩
  rw [hfb, Option.all_some, decide_eq_true_eq, hheld] at hfree
  cases hfree

theorem references_right_sharing :
    ∃ s, run framebufferStep .init sharing = some s ∧ s.BackReferences ∧ s.OwnedOnce := by
  obtain ⟨s, hrun⟩ := Option.isSome_iff_exists.mp
    (by decide +kernel : (run framebufferStep .init sharing).isSome = true)
  have hguarded : Guarded framebufferStep AllFramebuffers.KeepsReferences .init sharing := by
    refine ⟨trivial, fun first hfirst ↦ ⟨keepsReferences_of_free ?_, fun second hsecond ↦ ⟨keepsReferences_of_free ?_,
      fun _ _ ↦ trivial⟩⟩⟩
    · rw [← Option.some.inj hfirst]
      decide +kernel
    · have hfree : (framebufferStep
          (.setAttachment 0 GL_DEPTH_ATTACHMENT GL_RENDERBUFFER 5 (some 7) false 50) first).all
          (fun s ↦ (s.framebuffer 0).all fun fb ↦
            (fb.attachPoints (attachmentPointIndex GL_STENCIL_ATTACHMENT)).held = none) = true := by
        rw [← Option.some.inj hfirst]
        decide +kernel
      rwa [hsecond, Option.all_some] at hfree
  exact ⟨s, hrun, references_right hguarded hrun⟩

/-- The renderbuffer is detached from one of the points and has lost its reference. -/
theorem reference_lost : ∃ s,
    run framebufferStep .init (sharing ++ [.setAttachment 0 GL_STENCIL_ATTACHMENT GL_RENDERBUFFER 0 none false 0]) =
        some s ∧
      s.Holds 0 1 7 ∧ (s.objects.renderbuffer 7).attachedFB = 0 ∧ ¬s.BackReferences := by
  have hrun : (run framebufferStep .init
      (sharing ++ [.setAttachment 0 GL_STENCIL_ATTACHMENT GL_RENDERBUFFER 0 none false 0])).any (fun s ↦
        (s.objects.renderbuffer 7).attachedFB = 0 ∧
          (s.framebuffer 0).any fun fb ↦ (fb.attachPoints 1).held = some 7) = true := by
    decide +kernel
  obtain ⟨s, hlast, hs⟩ := (Option.any_eq_true _ _).mp hrun
  obtain ⟨hnone, hfb⟩ := of_decide_eq_true hs
  obtain ⟨fb, hfb, hheld⟩ := (Option.any_eq_true _ _).mp hfb
  have hholds : s.Holds 0 1 7 := (AllFramebuffers.holds_iff hfb).mpr ⟨by decide, of_decide_eq_true hheld⟩
  exact ⟨s, hlast, hholds, hnone, fun hreferences ↦ (hreferences 7).1.mpr ⟨0, 1, hholds⟩ hnone⟩

end FdeEmugl.Framebuffers

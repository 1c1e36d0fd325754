import Mathlib.Logic.Function.Basic

/-!
# A map and a map back

Several names may stand for one value, and the map back keeps one name for each value. The two maps
agree if going forth from the name that is kept leads to the value, and if every value that some name
stands for has a name kept. The rules say when a name may be bound to a value and when it may be
taken away.
-/

namespace FdeEmugl.TwoWayMap

open Function (update_of_ne update_self)

variable {Name Value : Type*}

structure Agree (forth : Name → Option Value) (back : Value → Option Name) : Prop where
  forth_of_back : ∀ value name, back value = some name → forth name = some value
  back_of_forth : ∀ name value, forth name = some value → ∃ kept, back value = some kept

/-- Each of the maps leads back from where the other one leads. -/
def Paired (forth : Name → Option Value) (back : Value → Option Name) : Prop :=
  ∀ name value, forth name = some value ↔ back value = some name

variable {forth : Name → Option Value} {back : Value → Option Name} {name : Name} {value old : Value}

theorem agree_none : Agree (fun _ : Name ↦ (none : Option Value)) fun _ ↦ none where
  forth_of_back _ _ h := by cases h
  back_of_forth _ _ h := by cases h

theorem paired_none : Paired (fun _ : Name ↦ (none : Option Value)) fun _ ↦ none := fun _ _ ↦ iff_of_false nofun nofun

variable [DecidableEq Name] [DecidableEq Value]

/-- A name is bound; the map back must not lead to it from any other value. -/
theorem Agree.bind (h : Agree forth back) (hfree : ∀ other, back other = some name → other = value) :
    Agree (Function.update forth name (some value)) (Function.update back value (some name)) where
  forth_of_back other kept hkept := by
    by_cases heq : other = value
    · subst heq
      rw [update_self, Option.some.injEq] at hkept
      rw [hkept, update_self]
    · rw [update_of_ne heq] at hkept
      have hne : kept ≠ name := by
        rintro rfl
        exact heq (hfree other hkept)
      rw [update_of_ne hne]
      exact h.forth_of_back other kept hkept
  back_of_forth other value' hother := by
    by_cases hvalue : value' = value
    · exact ⟨name, by rw [hvalue, update_self]⟩
    · rw [update_of_ne hvalue]
      by_cases heq : other = name
      · rw [heq, update_self, Option.some.injEq] at hother
        exact absurd hother.symm hvalue
      · rw [update_of_ne heq] at hother
        exact h.back_of_forth other value' hother

/-- The only name of a value goes. -/
theorem Agree.unbind (h : Agree forth back) (hname : forth name = some old)
    (halone : ∀ other, other ≠ name → forth other ≠ some old) :
    Agree (Function.update forth name none) (Function.update back old none) where
  forth_of_back value kept hkept := by
    have hvalue : value ≠ old := by
      rintro rfl
      rw [update_self] at hkept
      cases hkept
    rw [update_of_ne hvalue] at hkept
    have hforth := h.forth_of_back value kept hkept
    have hne : kept ≠ name := by
      rintro rfl
      rw [hforth, Option.some.injEq] at hname
      exact hvalue hname
    rw [update_of_ne hne, hforth]
  back_of_forth other value hother := by
    have hne : other ≠ name := by
      rintro rfl
      rw [update_self] at hother
      cases hother
    rw [update_of_ne hne] at hother
    have hvalue : value ≠ old := by
      rintro rfl
      exact halone other hne hother
    rw [update_of_ne hvalue]
    exact h.back_of_forth other value hother

/-- A name is bound anew: its old value loses the name kept for it. -/
theorem Agree.rebind (h : Agree forth back) (hname : forth name = some old)
    (halone : old ≠ value → ∀ other, other ≠ name → forth other ≠ some old) :
    Agree (Function.update forth name (some value))
      (Function.update (Function.update back old none) value (some name)) := by
  by_cases hsame : old = value
  · rw [hsame, Function.update_idem]
    refine h.bind fun other hother ↦ ?_
    rw [← hsame]
    exact Option.some.inj ((h.forth_of_back other name hother).symm.trans hname)
  · have hrest := h.unbind hname (halone hsame)
    have hfree : ∀ other, Function.update back old none other = some name → other = value := by
      intro other hother
      have hnone := hrest.forth_of_back other name hother
      rw [update_self] at hnone
      cases hnone
    have hbound := hrest.bind hfree
    rwa [Function.update_idem] at hbound

/-- A new name is bound to a new value. -/
theorem Paired.bind (h : Paired forth back) (hname : forth name = none) (hvalue : back value = none) :
    Paired (Function.update forth name (some value)) (Function.update back value (some name)) := by
  intro other found
  by_cases heq : other = name
  · rw [heq, update_self]
    by_cases hfound : found = value
    · rw [hfound, update_self]
      exact iff_of_true rfl rfl
    · rw [update_of_ne hfound, ← h, hname]
      exact iff_of_false (fun hsome ↦ hfound (Option.some.inj hsome).symm) nofun
  · rw [update_of_ne heq]
    by_cases hfound : found = value
    · rw [hfound, update_self, h, hvalue]
      exact iff_of_false nofun fun hsome ↦ heq (Option.some.inj hsome).symm
    · rw [update_of_ne hfound]
      exact h other found

/-- A name and its value go. -/
theorem Paired.unbind (h : Paired forth back) (hname : forth name = some value) :
    Paired (Function.update forth name none) (Function.update back value none) := by
  intro other found
  by_cases heq : other = name
  · rw [heq, update_self]
    by_cases hfound : found = value
    · rw [hfound, update_self]
      exact iff_of_false nofun nofun
    · rw [update_of_ne hfound, ← h, hname]
      exact iff_of_false nofun fun hsome ↦ hfound (Option.some.inj hsome).symm
  · rw [update_of_ne heq]
    by_cases hfound : found = value
    · rw [hfound, update_self, h, (h name value).mp hname]
      exact iff_of_false (fun hsome ↦ heq (Option.some.inj hsome).symm) nofun
    · rw [update_of_ne hfound]
      exact h other found

end FdeEmugl.TwoWayMap

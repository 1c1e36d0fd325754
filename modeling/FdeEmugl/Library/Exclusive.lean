import Mathlib.Logic.Function.Basic

/-!
# Cells that one thread works on at a time

Threads take cells, work on them in stages and let them go. What is true of the
value of a cell depends on the stage of the thread that holds it; no two threads
hold one cell.
-/

namespace FdeEmugl

open Function (update_of_ne update_self)

variable {Thread Position Cell Stage Value : Type*}

/-- `stage` is how far a thread at a position has got with a cell. -/
structure Exclusive (stage : Position → Cell → Option Stage) (holds : Cell → Option Stage → Value → Prop)
    (position : Thread → Position) (value : Cell → Value) : Prop where
  unique : ∀ thread other cell, stage (position thread) cell ≠ none →
    stage (position other) cell ≠ none → thread = other
  held : ∀ thread cell, stage (position thread) cell ≠ none → holds cell (stage (position thread) cell) (value cell)
  free : ∀ cell, (∀ thread, stage (position thread) cell = none) → holds cell none (value cell)

namespace Exclusive

variable [DecidableEq Thread] {stage : Position → Cell → Option Stage}
  {holds : Cell → Option Stage → Value → Prop} {position : Thread → Position} {value : Cell → Value}

variable {thread : Thread} {next : Position}

section

variable (h : Exclusive stage holds position value)
include h

theorem unique_update
    (hkept : ∀ cell, stage next cell ≠ none → stage (position thread) cell ≠ none ∨ ∀ other, stage (position other) cell = none)
    (first second : Thread) (cell : Cell)
    (hfirst : stage (Function.update position thread next first) cell ≠ none)
    (hsecond : stage (Function.update position thread next second) cell ≠ none) : first = second := by
  by_cases hfirstEq : first = thread
  · by_cases hsecondEq : second = thread
    · rw [hfirstEq, hsecondEq]
    · subst hfirstEq
      rw [update_self] at hfirst
      rw [update_of_ne hsecondEq] at hsecond
      rcases hkept cell hfirst with hheld | hfree
      · exact h.unique first second cell hheld hsecond
      · exact absurd (hfree second) hsecond
  · rw [update_of_ne hfirstEq] at hfirst
    by_cases hsecondEq : second = thread
    · subst hsecondEq
      rw [update_self] at hsecond
      rcases hkept cell hsecond with hheld | hfree
      · exact h.unique first second cell hfirst hheld
      · exact absurd (hfree first) hfirst
    · rw [update_of_ne hsecondEq] at hsecond
      exact h.unique first second cell hfirst hsecond

/-- A thread moves on without touching a cell. -/
theorem move (hsame : ∀ cell, stage next cell = stage (position thread) cell) :
    Exclusive stage holds (Function.update position thread next) value := by
  have hstage (other : Thread) (cell : Cell) :
      stage (Function.update position thread next other) cell = stage (position other) cell := by
    by_cases heq : other = thread
    · rw [heq, update_self, hsame]
    · rw [update_of_ne heq]
  refine ⟨fun first second cell hfirst hsecond ↦ ?_, fun other cell hother ↦ ?_, fun cell hfree ↦ ?_⟩
  · rw [hstage] at hfirst hsecond
    exact h.unique first second cell hfirst hsecond
  · rw [hstage] at hother ⊢
    exact h.held other cell hother
  · exact h.free cell fun other ↦ by rw [← hstage other cell, hfree other]

/-- A thread works on a cell that it holds, or takes one that nobody holds. -/
theorem work [DecidableEq Cell] {cell : Cell} {result : Value}
    (hsame : ∀ other, other ≠ cell → stage next other = stage (position thread) other)
    (hown : stage (position thread) cell ≠ none ∨ ∀ other, stage (position other) cell = none)
    (hholds : holds cell (stage next cell) result) :
    Exclusive stage holds (Function.update position thread next) (Function.update value cell result) := by
  have hothers (other : Thread) (hne : other ≠ thread) : stage (position other) cell = none := by
    by_contra hother
    rcases hown with hheld | hfree
    · exact hne (h.unique other thread cell hother hheld)
    · exact hother (hfree other)
  have hstage (other : Thread) {different : Cell} (hne : different ≠ cell) :
      stage (Function.update position thread next other) different = stage (position other) different := by
    by_cases heq : other = thread
    · rw [heq, update_self, hsame different hne]
    · rw [update_of_ne heq]
  refine ⟨h.unique_update fun different hdifferent ↦ ?_, fun other different hother ↦ ?_, fun different hfree ↦ ?_⟩
  · by_cases heq : different = cell
    · exact heq ▸ hown
    · left
      rw [← hsame different heq]
      exact hdifferent
  · by_cases heq : different = cell
    · subst heq
      have hthread : other = thread := by
        by_contra hne
        rw [update_of_ne hne] at hother
        exact hother (hothers other hne)
      rw [hthread, update_self, update_self]
      exact hholds
    · rw [hstage other heq] at hother ⊢
      rw [update_of_ne heq]
      exact h.held other different hother
  · by_cases heq : different = cell
    · subst heq
      have hnone := hfree thread
      rw [update_self] at hnone ⊢
      rw [hnone] at hholds
      exact hholds
    · rw [update_of_ne heq]
      refine h.free different fun other ↦ ?_
      rw [← hstage other heq]
      exact hfree other

end

end Exclusive

end FdeEmugl

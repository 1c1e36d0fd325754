import Mathlib.Algebra.Order.BigOperators.Group.Finset
import Mathlib.Data.Fintype.BigOperators

/-!
# Shares held by finitely many parties

Each party is in some state, and a state holds an integral share of a common total.
-/

namespace FdeEmugl.Shares

variable {Party State : Type*} [Fintype Party]

/-- What all parties hold together. -/
def total (share : State → ℤ) (states : Party → State) : ℤ := ∑ party, share (states party)

variable {share : State → ℤ}

/-- When one party changes its state, the total changes by what its share changes. -/
theorem total_update [DecidableEq Party] (share : State → ℤ) (states : Party → State)
    (party : Party) (state : State) :
    total share (Function.update states party state) = total share states + (share state - share (states party)) := by
  have hcomp (other : Party) : share (Function.update states party state other) =
      Function.update (fun other ↦ share (states other)) party (share state) other := by
    by_cases hother : other = party
    · subst hother
      simp only [Function.update_self]
    · simp only [Function.update_of_ne hother]
  have hsplit : total share states = share (states party) + ∑ other ∈ Finset.univ \ {party}, share (states other) :=
    Finset.sum_eq_add_sum_sdiff_singleton_of_mem (Finset.mem_univ party) fun other ↦ share (states other)
  calc total share (Function.update states party state)
      = ∑ other, Function.update (fun other ↦ share (states other)) party (share state) other :=
        Finset.sum_congr rfl fun other _ ↦ hcomp other
    _ = share state + ∑ other ∈ Finset.univ \ {party}, share (states other) :=
        Finset.sum_update_of_mem (Finset.mem_univ party) _ _
    _ = total share states + (share state - share (states party)) := by
        rw [hsplit]
        omega

section

variable (hshare : ∀ state, 0 ≤ share state) (states : Party → State)
include hshare

theorem total_nonneg : 0 ≤ total share states := Finset.sum_nonneg fun party _ ↦ hshare (states party)

/-- Two parties never hold more than the total. -/
theorem add_le_total {first second : Party} (hne : first ≠ second) :
    share (states first) + share (states second) ≤ total share states := by
  classical
  calc share (states first) + share (states second) = ∑ party ∈ {first, second}, share (states party) :=
        (Finset.sum_pair (f := fun party ↦ share (states party)) hne).symm
    _ ≤ total share states := Finset.sum_le_sum_of_subset_of_nonneg (Finset.subset_univ _)
        fun party _ _ ↦ hshare (states party)

theorem le_total (party : Party) : share (states party) ≤ total share states :=
  Finset.single_le_sum (fun other _ ↦ hshare (states other)) (Finset.mem_univ party)

end

theorem total_eq_zero {states : Party → State} (h : ∀ party, share (states party) = 0) : total share states = 0 :=
  Finset.sum_eq_zero fun party _ ↦ h party

end FdeEmugl.Shares

import Mathlib.Order.Lattice

/-!
# Keeping the best

A search keeps the best candidate so far. In the end it has one with the least score.
-/

namespace FdeEmugl.Selection

variable {α β : Type*} [LinearOrder β] (score : α → β)

/-- The candidate, if it is better. -/
def better (best candidate : α) : α := if score candidate < score best then candidate else best

theorem better_cases (best candidate : α) :
    better score best candidate = best ∨ better score best candidate = candidate := by
  rw [better]
  split_ifs
  · exact .inr rfl
  · exact .inl rfl

theorem better_le (best candidate : α) :
    score (better score best candidate) ≤ score best ∧ score (better score best candidate) ≤ score candidate := by
  rw [better]
  split_ifs with h
  · exact ⟨h.le, le_rfl⟩
  · exact ⟨le_rfl, not_lt.mp h⟩

theorem foldl_better_mem (candidates : List α) (init : α) :
    candidates.foldl (better score) init ∈ init :: candidates := by
  induction candidates generalizing init with
  | nil => exact List.mem_cons_self
  | cons first candidates ih =>
    rw [List.foldl_cons]
    obtain hsame | hmem := List.mem_cons.mp (ih (better score init first))
    · rw [hsame]
      obtain hbest | hfirst := better_cases score init first
      · rw [hbest]
        exact List.mem_cons_self
      · rw [hfirst]
        exact List.mem_cons_of_mem _ List.mem_cons_self
    · exact List.mem_cons_of_mem _ (List.mem_cons_of_mem _ hmem)

theorem foldl_better_le_init (candidates : List α) (init : α) :
    score (candidates.foldl (better score) init) ≤ score init := by
  induction candidates generalizing init with
  | nil => exact le_rfl
  | cons first candidates ih => exact (ih (better score init first)).trans (better_le score init first).1

theorem foldl_better_le {candidates : List α} {candidate : α} (hmem : candidate ∈ candidates) (init : α) :
    score (candidates.foldl (better score) init) ≤ score candidate := by
  induction candidates generalizing init with
  | nil => cases hmem
  | cons first candidates ih =>
    obtain rfl | hmem := List.mem_cons.mp hmem
    · have hle := foldl_better_le_init score candidates (better score init candidate)
      exact hle.trans (better_le score init candidate).2
    · exact ih hmem (better score init first)

/-- Where the start is worse than a candidate, a candidate is found. -/
theorem foldl_better_mem_of_lt {candidates : List α} {candidate init : α} (hmem : candidate ∈ candidates)
    (hlt : score candidate < score init) : candidates.foldl (better score) init ∈ candidates := by
  obtain hinit | hfound := List.mem_cons.mp (foldl_better_mem score candidates init)
  · have hle := foldl_better_le score hmem init
    rw [hinit] at hle
    exact absurd hlt hle.not_gt
  · exact hfound

end FdeEmugl.Selection

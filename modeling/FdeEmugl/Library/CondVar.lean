import Mathlib.Data.List.Perm.Basic

/-!
# The waiters of a condition variable

The threads that wait on a condition variable are a list, in no order that matters. A signal
wakes an arbitrary one of them, a broadcast all.
-/

namespace FdeEmugl.CondVar

variable {Waiter : Type*}

/-- The waiter that is woken, if there is one, and the others. The signal picks the waiter. -/
def signal (pick : ℕ) (waiters : List Waiter) : Option (List Waiter × List Waiter) :=
  if waiters.isEmpty then some ([], [])
  else waiters[pick]?.map fun waiter ↦ ([waiter], waiters.eraseIdx pick)

variable {pick : ℕ} {waiters woken rest : List Waiter}

theorem signal_cases (h : signal pick waiters = some (woken, rest)) : (waiters = [] ∧ woken = [] ∧ rest = []) ∨
      ∃ waiter, waiters[pick]? = some waiter ∧ woken = [waiter] ∧ rest = waiters.eraseIdx pick := by
  unfold signal at h
  split at h
  · rename_i hempty
    cases h
    exact .inl ⟨List.isEmpty_iff.mp hempty, rfl, rfl⟩
  · obtain ⟨waiter, hwaiter, hpair⟩ := Option.map_eq_some_iff.mp h
    cases hpair
    exact .inr ⟨waiter, hwaiter, rfl, rfl⟩

theorem perm_of_getElem? {index : ℕ} {waiter : Waiter} (h : waiters[index]? = some waiter) :
    (waiter :: waiters.eraseIdx index).Perm waiters := by
  obtain ⟨hlt, hget⟩ := List.getElem?_eq_some_iff.mp h
  rw [← hget]
  exact List.getElem_cons_eraseIdx_perm hlt

/-- No one is lost. -/
theorem signal_perm (h : signal pick waiters = some (woken, rest)) : (woken ++ rest).Perm waiters := by
  rcases signal_cases h with ⟨rfl, rfl, rfl⟩ | ⟨waiter, hwaiter, rfl, rfl⟩
  · exact .nil
  · exact perm_of_getElem? hwaiter

/-- If someone is left, someone was woken. -/
theorem length_woken (h : signal pick waiters = some (woken, rest)) (hrest : rest ≠ []) : woken.length = 1 := by
  rcases signal_cases h with ⟨rfl, rfl, rfl⟩ | ⟨waiter, hwaiter, rfl, rfl⟩
  · exact absurd rfl hrest
  · rfl

end FdeEmugl.CondVar

import Mathlib.Data.Finset.Card

/-!
# Loops that go from value to value

A loop has a body that either goes on with another value or ends with a result. It ends
exactly if no round of it leads back to a value where it has been, provided that the values with
which it goes on are finitely many; their number is then enough fuel. A loop with a variant ends too.
-/

namespace FdeEmugl.Walk

open Relation

variable {α β : Type*}

/-- Without a result, the fuel was not enough. -/
def loop (body : α → α ⊕ β) : ℕ → α → Option β
  | 0, _ => none
  | fuel + 1, value =>
    match body value with
    | .inl next => loop body fuel next
    | .inr result => some result

/-- The body goes on from a value with another one. -/
def Goes (body : α → α ⊕ β) (value next : α) : Prop := body value = .inl next

section Loop

variable {body : α → α ⊕ β} {value next : α} {result : β} {fuel : ℕ}

theorem loop_of_goes (h : Goes body value next) : loop body (fuel + 1) value = loop body fuel next := by
  simp only [loop, show body value = .inl next from h]

theorem loop_of_done (h : body value = .inr result) : loop body (fuel + 1) value = some result := by
  simp only [loop, h]

section

variable (h : loop body fuel value = some result)
include h

theorem loop_succ : loop body (fuel + 1) value = some result := by
  induction fuel generalizing value with
  | zero => cases h
  | succ fuel ih =>
    cases hbody : body value with
    | inl next =>
      rw [loop_of_goes hbody] at h ⊢
      exact ih h
    | inr last =>
      rw [loop_of_done hbody] at h ⊢
      exact h

theorem loop_mono {more : ℕ} (hle : fuel ≤ more) : loop body more value = some result := by
  induction hle with
  | refl => exact h
  | step _ ih => exact loop_succ ih

/-- Two results of one value are the same, whatever the fuel. -/
theorem loop_unique {other : ℕ} {result' : β} (h' : loop body other value = some result') : result = result' := by
  have hfirst := loop_mono h (Nat.le_max_left fuel other)
  have hsecond := loop_mono h' (Nat.le_max_right fuel other)
  exact Option.some.inj (hfirst.symm.trans hsecond)

end

/-- A loop ends where it ends from a value on its way. -/
theorem loop_of_reach {last : α} (hreach : ReflTransGen (Goes body) value last)
    (h : loop body fuel value = some result) : ∃ rest, loop body rest last = some result := by
  induction hreach with
  | refl => exact ⟨fuel, h⟩
  | @tail before after _ hgoes ih =>
    obtain ⟨rest, hrest⟩ := ih
    cases rest with
    | zero => cases hrest
    | succ rest => exact ⟨rest, (loop_of_goes hgoes).symm.trans hrest⟩

section

variable (h : loop body fuel value = some result)
include h

/-- The value with which a loop ends. -/
theorem exists_last : ∃ last, ReflTransGen (Goes body) value last ∧ body last = .inr result := by
  induction fuel generalizing value with
  | zero => cases h
  | succ fuel ih =>
    cases hbody : body value with
    | inl next =>
      rw [loop_of_goes hbody] at h
      obtain ⟨last, hreach, hlast⟩ := ih h
      exact ⟨last, .head hbody hreach, hlast⟩
    | inr other =>
      rw [loop_of_done hbody] at h
      exact ⟨value, .refl, hbody.trans (congrArg Sum.inr (Option.some.inj h))⟩

theorem loop_eq_of_last {last : α} (hreach : ReflTransGen (Goes body) value last) {other : β}
    (hlast : body last = .inr other) : result = other := by
  obtain ⟨rest, hrest⟩ := loop_of_reach hreach h
  have hdone : loop body (0 + 1) last = some other := loop_of_done hlast
  exact loop_unique hrest hdone

/-- No loop ends that comes back to a value. -/
theorem not_back_of_loop : ¬ TransGen (Goes body) value value := by
  intro hback
  induction fuel generalizing value with
  | zero => cases h
  | succ fuel ih =>
    obtain ⟨next, hgoes, hrest⟩ := TransGen.head'_iff.mp hback
    rw [loop_of_goes hgoes] at h
    exact ih h (TransGen.tail' hrest hgoes)

end

/-- The number of the values with which a loop goes on is enough fuel, if it comes back to none. -/
theorem exists_loop_of_bounded (values : Finset α)
    (hvalues : ∀ last next, ReflTransGen (Goes body) value last → Goes body last next → last ∈ values)
    (hback : ∀ last, ReflTransGen (Goes body) value last → ¬ TransGen (Goes body) last last) :
    ∃ result, loop body (values.card + 1) value = some result := by
  classical
  induction hcard : values.card generalizing values value with
  | zero =>
    cases hbody : body value with
    | inl next =>
      have hmem := hvalues value next .refl hbody
      rw [Finset.card_eq_zero.mp hcard] at hmem
      exact absurd hmem (Finset.notMem_empty value)
    | inr result => exact ⟨result, loop_of_done hbody⟩
  | succ count ih =>
    cases hbody : body value with
    | inl next =>
      have hmem := hvalues value next .refl hbody
      have hrest : (values.erase value).card = count := by
        rw [Finset.card_erase_of_mem hmem, hcard, Nat.add_sub_cancel]
      obtain ⟨result, hresult⟩ : ∃ result, loop body (count + 1) next = some result := ih (values.erase value)
        (fun last after hreach hgoes ↦ by
          refine Finset.mem_erase.mpr ⟨?_, hvalues last after (.head hbody hreach) hgoes⟩
          rintro rfl
          exact hback last .refl (TransGen.head' hbody hreach))
        (fun last hreach ↦ hback last (.head hbody hreach)) hrest
      exact ⟨result, (loop_of_goes hbody).trans hresult⟩
    | inr result => exact ⟨result, loop_of_done hbody⟩

/-- A loop with a variant ends, and its result has what the invariant gives in the last round. -/
theorem exists_loop_of_variant (inv : α → Prop) (post : β → Prop) (variant : α → ℕ)
    (hgoes : ∀ value next, inv value → Goes body value next → inv next ∧ variant next < variant value)
    (hdone : ∀ value result, inv value → body value = .inr result → post result)
    (hinv : inv value) (hfuel : variant value < fuel) :
    ∃ result, loop body fuel value = some result ∧ post result := by
  induction fuel generalizing value with
  | zero => exact absurd hfuel (Nat.not_lt_zero _)
  | succ fuel ih =>
    cases hbody : body value with
    | inl next =>
      obtain ⟨hnext, hless⟩ := hgoes value next hinv hbody
      rw [loop_of_goes hbody]
      exact ih hnext (by omega)
    | inr result => exact ⟨result, loop_of_done hbody, hdone value result hinv hbody⟩

end Loop

/-! ## Runs that return -/

/-- With enough fuel, a run has the result. -/
def Returns (run : ℕ → Option β) (result : β) : Prop := ∃ bound, ∀ fuel, bound ≤ fuel → run fuel = some result

section Returns

variable {run : ℕ → Option α} {next : ℕ → α → Option β} {value : α} {result : β}

theorem returns_some (value : α) : Returns (fun _ ↦ some value) value := ⟨0, fun _ _ ↦ rfl⟩

theorem returns_loop {body : α → α ⊕ β} {fuel : ℕ} (h : loop body fuel value = some result) :
    Returns (fun fuel ↦ loop body fuel value) result :=
  ⟨fuel, fun _ hle ↦ loop_mono h hle⟩

theorem Returns.bind (hrun : Returns run value) (hnext : Returns (fun fuel ↦ next fuel value) result) :
    Returns (fun fuel ↦ (run fuel).bind (next fuel)) result := by
  obtain ⟨bound, hbound⟩ := hrun
  obtain ⟨more, hmore⟩ := hnext
  refine ⟨max bound more, fun fuel hfuel ↦ ?_⟩
  have hfirst : run fuel = some value := hbound fuel (by omega)
  dsimp only
  rw [hfirst]
  exact hmore fuel (by omega)

theorem Returns.map (f : α → β) (hrun : Returns run value) : Returns (fun fuel ↦ (run fuel).map f) (f value) := by
  obtain ⟨bound, hbound⟩ := hrun
  exact ⟨bound, fun fuel hfuel ↦ congrArg (Option.map f) (hbound fuel hfuel)⟩

theorem Returns.unique {other : α} (hrun : Returns run value) (hother : Returns run other) : value = other := by
  obtain ⟨bound, hbound⟩ := hrun
  obtain ⟨more, hmore⟩ := hother
  have hfirst : run (max bound more) = some value := hbound _ (by omega)
  have hsecond : run (max bound more) = some other := hmore _ (by omega)
  exact Option.some.inj (hfirst.symm.trans hsecond)

end Returns

end FdeEmugl.Walk

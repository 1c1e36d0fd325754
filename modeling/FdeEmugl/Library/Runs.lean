import Mathlib.Data.List.Basic

/-!
# Finite runs of labelled partial steps

A system is a function taking a label and a state to the next state, or to
nothing when the label is not enabled there. A run is a list of labels. The
invariant rule below is stated for runs whose every label meets a guard in the
state in which it is taken; the guard is a parameter, so an unguarded run is
the special case of the guard that always holds.
-/

namespace FdeEmugl.Runs

variable {State Label : Type*}

/-- The state after all the labels, if each of them was enabled. -/
def run (step : Label → State → Option State) : State → List Label → Option State
  | state, [] => some state
  | state, label :: labels => (step label state).bind fun next ↦ run step next labels

/-- Every label of the run meets `guard` in the state in which it is taken. -/
def Guarded (step : Label → State → Option State) (guard : Label → State → Prop) : State → List Label → Prop
  | _, [] => True
  | state, label :: labels =>
    guard label state ∧ ∀ next, step label state = some next → Guarded step guard next labels

variable {step : Label → State → Option State} {guard : Label → State → Prop} {state : State}
  {labels : List Label}

section

variable (step : Label → State → Option State) (state : State)

@[simp] theorem run_nil : run step state [] = some state := rfl

@[simp] theorem run_cons (label : Label) (labels : List Label) :
    run step state (label :: labels) = (step label state).bind fun next ↦ run step next labels := rfl

theorem run_append (first second : List Label) :
    run step state (first ++ second) = (run step state first).bind fun next ↦ run step next second := by
  induction first generalizing state with
  | nil => rfl
  | cons label first ih =>
    simp only [List.cons_append, run_cons]
    cases step label state with
    | none => rfl
    | some next => simpa using ih next

end

theorem guarded_cons_of_step {next : State} {label : Label} (hstep : step label state = some next) :
    Guarded step guard state (label :: labels) ↔ guard label state ∧ Guarded step guard next labels := by
  simp [Guarded, hstep]

theorem guarded_cons_of_not_enabled {label : Label} (hstep : step label state = none) :
    Guarded step guard state (label :: labels) ↔ guard label state := by
  simp [Guarded, hstep]

/-- The two halves of a guarded run are guarded. -/
theorem guarded_append_of_run {middle : State} {first second : List Label}
    (h : Guarded step guard state (first ++ second)) (hrun : run step state first = some middle) :
    Guarded step guard state first ∧ Guarded step guard middle second := by
  induction first generalizing state with
  | nil =>
    simp only [run_nil, Option.some.injEq] at hrun
    exact ⟨trivial, hrun ▸ h⟩
  | cons label first ih =>
    obtain ⟨next, hnext, hrest⟩ := Option.bind_eq_some_iff.mp hrun
    obtain ⟨hfirst, hsecond⟩ := ih (h.2 next hnext) hrest
    exact ⟨(guarded_cons_of_step hnext).mpr ⟨h.1, hfirst⟩, hsecond⟩

theorem guarded_and {guard' : Label → State → Prop} (h : Guarded step guard state labels)
    (h' : Guarded step guard' state labels) :
    Guarded step (fun label state ↦ guard label state ∧ guard' label state) state labels := by
  induction labels generalizing state with
  | nil => trivial
  | cons label labels ih => exact ⟨⟨h.1, h'.1⟩, fun next hnext ↦ ih (h.2 next hnext) (h'.2 next hnext)⟩

instance decidableGuarded (step : Label → State → Option State) (guard : Label → State → Prop)
    [∀ label state, Decidable (guard label state)] :
    ∀ state labels, Decidable (Guarded step guard state labels)
  | _, [] => isTrue trivial
  | state, label :: labels =>
    match hstep : step label state with
    | none => decidable_of_iff _ (guarded_cons_of_not_enabled hstep).symm
    | some next =>
      have := decidableGuarded step guard next labels
      decidable_of_iff _ (guarded_cons_of_step hstep).symm

/-- What one guarded step preserves, a guarded run preserves. -/
theorem invariant_of_guarded (invariant : State → Prop)
    (hstep : ∀ label state next, invariant state → guard label state → step label state = some next → invariant next)
    {last : State} (hinit : invariant state) (hguard : Guarded step guard state labels)
    (hrun : run step state labels = some last) : invariant last := by
  induction labels generalizing state with
  | nil =>
    simp only [run_nil, Option.some.injEq] at hrun
    exact hrun ▸ hinit
  | cons label labels ih =>
    obtain ⟨next, hnext, hrest⟩ := Option.bind_eq_some_iff.mp hrun
    exact ih (hstep label state next hinit hguard.1 hnext) (hguard.2 next hnext) hrest

/-- If guarded steps are enabled and preserve the invariant, a guarded run has a last state. -/
theorem exists_run_of_guarded (invariant : State → Prop)
    (hstep : ∀ label state, invariant state → guard label state → ∃ next, step label state = some next ∧ invariant next)
    (hinit : invariant state) (hguard : Guarded step guard state labels) :
    ∃ last, run step state labels = some last ∧ invariant last := by
  induction labels generalizing state with
  | nil => exact ⟨state, rfl, hinit⟩
  | cons label labels ih =>
    obtain ⟨next, hnext, hinv⟩ := hstep label state hinit hguard.1
    obtain ⟨last, hlast, hinv'⟩ := ih hinv (hguard.2 next hnext)
    refine ⟨last, ?_, hinv'⟩
    rw [run_cons, hnext, Option.bind_some, hlast]

theorem guarded_of_forall (hguard : ∀ label state, guard label state) (state : State) (labels : List Label) :
    Guarded step guard state labels := by
  induction labels generalizing state with
  | nil => trivial
  | cons label labels ih => exact ⟨hguard label state, fun next _ ↦ ih next⟩

/-- A guard that does not look at the state. -/
theorem guarded_of_mem {allowed : Label → Prop} (state : State) (h : ∀ label ∈ labels, allowed label) :
    Guarded step (fun label _ ↦ allowed label) state labels := by
  induction labels generalizing state with
  | nil => trivial
  | cons label labels ih =>
    have hrest : ∀ label ∈ labels, allowed label := fun other hother ↦ h other (.tail label hother)
    exact ⟨h label (.head labels), fun next _ ↦ ih next hrest⟩

/-- What every enabled step preserves, every run preserves. -/
theorem invariant_of_run {invariant : State → Prop}
    (hstep : ∀ label state next, invariant state → step label state = some next → invariant next)
    {last : State} (hinit : invariant state) (hrun : run step state labels = some last) : invariant last :=
  invariant_of_guarded invariant (fun label state next hinv _ hnext ↦ hstep label state next hinv hnext)
    hinit (guarded_of_forall (fun _ _ ↦ trivial) state labels) hrun

/-- Two systems whose steps keep a relation have runs that keep it. -/
theorem rel_run {State' : Type*} {step' : Label → State' → Option State'} {rel : State → State' → Prop}
    (hstep : ∀ label state state', rel state state' → Option.Rel rel (step label state) (step' label state'))
    {state' : State'} (h : rel state state') (labels : List Label) :
    Option.Rel rel (run step state labels) (run step' state' labels) := by
  induction labels generalizing state state' with
  | nil => exact .some h
  | cons label labels ih =>
    have hnext := hstep label state state' h
    rw [run_cons, run_cons]
    generalize step label state = next at hnext ⊢
    generalize step' label state' = next' at hnext ⊢
    cases hnext with
    | some hrel => exact ih hrel
    | none => exact .none

end FdeEmugl.Runs

import Mathlib.Data.List.Basic

/-!
# A heap that remembers deleted objects

An address can be given out again once its object was deleted, so an address
alone does not name an object. The heap keeps every object that was ever made,
the newest first, and counts how often each was deleted; a pointer refers to
the newest object at its address. In a heap in which new objects are only put
where nothing lives and only live objects are deleted, no object is deleted
twice, and what was true of each object when it was deleted stays recorded.
-/

namespace FdeEmugl.Heap

structure Cell (Object : Type) where
  address : ℕ
  object : Object
  deletes : ℕ
  deriving DecidableEq

section Operations

variable {Object : Type}

/-- The newest object at an address. -/
def find (address : ℕ) : List (Cell Object) → Option (Cell Object)
  | [] => none
  | cell :: cells => if cell.address = address then some cell else find address cells

/-- The object that lives at an address. -/
def live (cells : List (Cell Object)) (address : ℕ) : Option Object :=
  (find address cells).bind fun cell ↦ if cell.deletes = 0 then some cell.object else none

def create (address : ℕ) (object : Object) (cells : List (Cell Object)) : List (Cell Object) :=
  ⟨address, object, 0⟩ :: cells

/-- The newest object at an address, and the number of its deletions, are changed. -/
def change (address : ℕ) (change' : Object × ℕ → Object × ℕ) : List (Cell Object) → List (Cell Object)
  | [] => []
  | cell :: cells =>
    if cell.address = address then
      ⟨cell.address, (change' (cell.object, cell.deletes)).1, (change' (cell.object, cell.deletes)).2⟩ :: cells
    else cell :: change address change' cells

/-- What a pointer to the address sees from now on. -/
def modify (address : ℕ) (assign : Object → Object) : List (Cell Object) → List (Cell Object) :=
  change address fun cell ↦ (assign cell.1, cell.2)

def delete (address : ℕ) : List (Cell Object) → List (Cell Object) := change address fun cell ↦ (cell.1, cell.2 + 1)

/-- No object was put over a live one, and none was deleted twice or without `Q`. -/
def Kept (Q : Object → Prop) : List (Cell Object) → Prop
  | [] => True
  | cell :: cells =>
    live cells cell.address = none ∧ (cell.deletes = 0 ∨ cell.deletes = 1 ∧ Q cell.object) ∧ Kept Q cells

end Operations

section Live

variable {Object : Type} {address other : ℕ} {object : Object} {cells : List (Cell Object)}

variable (change' : Object × ℕ → Object × ℕ)

theorem live_cons_self (cell : Cell Object) (cells : List (Cell Object)) :
    live (cell :: cells) cell.address = if cell.deletes = 0 then some cell.object else none := by
  simp [live, find]

theorem live_cons_of_ne {cell : Cell Object} (h : cell.address ≠ other) :
    live (cell :: cells) other = live cells other := by
  simp [live, find, h]

theorem live_create (address : ℕ) (object : Object) (cells : List (Cell Object)) :
    live (create address object cells) = Function.update (live cells) address (some object) := by
  funext other
  by_cases h : other = address
  · rw [h, Function.update_self]
    exact live_cons_self _ _
  · rw [Function.update_of_ne h]
    exact live_cons_of_ne (Ne.symm h)

theorem find_change_of_ne (h : other ≠ address) : find other (change address change' cells) = find other cells := by
  induction cells with
  | nil => rfl
  | cons cell cells ih =>
    by_cases hcell : cell.address = address
    · have hother : cell.address ≠ other := fun heq ↦ h (heq.symm.trans hcell)
      simp only [change, if_pos hcell, find, if_neg hother]
    · simp only [change, if_neg hcell, find, ih]

theorem live_change_of_ne (h : other ≠ address) : live (change address change' cells) other = live cells other := by
  simp only [live, find_change_of_ne change' h]

theorem find_change_self : find address (change address change' cells) = (find address cells).map fun cell ↦
      ⟨cell.address, (change' (cell.object, cell.deletes)).1, (change' (cell.object, cell.deletes)).2⟩ := by
  induction cells with
  | nil => rfl
  | cons cell cells ih =>
    by_cases hcell : cell.address = address
    · simp only [change, if_pos hcell, find, Option.map_some]
    · simp only [change, if_neg hcell, find, ih]

theorem find_of_live (h : live cells address = some object) :
    ∃ cell, find address cells = some cell ∧ cell.deletes = 0 ∧ cell.object = object := by
  obtain ⟨cell, hfind, hcell⟩ := Option.bind_eq_some_iff.mp h
  split_ifs at hcell with hzero
  exact ⟨cell, hfind, hzero, Option.some.inj hcell⟩

theorem live_modify (assign : Object → Object) (h : live cells address = some object) :
    live (modify address assign cells) = Function.update (live cells) address (some (assign object)) := by
  funext other
  by_cases heq : other = address
  · subst heq
    obtain ⟨cell, hfind, hzero, rfl⟩ := find_of_live h
    rw [Function.update_self, live, modify, find_change_self, hfind]
    simp [hzero]
  · rw [Function.update_of_ne heq]
    exact live_change_of_ne _ heq

theorem live_delete (address : ℕ) (cells : List (Cell Object)) :
    live (delete address cells) = Function.update (live cells) address none := by
  funext other
  by_cases heq : other = address
  · subst heq
    rw [Function.update_self, live, delete, find_change_self]
    cases find other cells <;> simp
  · rw [Function.update_of_ne heq]
    exact live_change_of_ne _ heq

end Live

section Kept

variable {Object : Type} {Q : Object → Prop} {address : ℕ} {object : Object} {cells : List (Cell Object)}

theorem Kept.create (h : Kept Q cells) (hfree : live cells address = none) (object : Object) :
    Kept Q (create address object cells) :=
  ⟨hfree, .inl rfl, h⟩

section

variable (h : Kept Q cells) (hlive : live cells address = some object)
include h hlive

/-- A change of the live object at an address, which deletes it at most once. -/
theorem Kept.change {change' : Object × ℕ → Object × ℕ}
    (hchange : (change' (object, 0)).2 = 0 ∨ (change' (object, 0)).2 = 1 ∧ Q (change' (object, 0)).1) :
    Kept Q (change address change' cells) := by
  induction cells with
  | nil => exact h
  | cons cell cells ih =>
    obtain ⟨hfree, hcell, hrest⟩ := h
    by_cases heq : cell.address = address
    · subst heq
      rw [live_cons_self] at hlive
      split_ifs at hlive with hzero
      cases hlive
      rw [Heap.change, if_pos rfl]
      refine ⟨hfree, ?_, hrest⟩
      simp only [hzero]
      exact hchange
    · rw [live_cons_of_ne heq] at hlive
      rw [Heap.change, if_neg heq]
      refine ⟨?_, hcell, ih hrest hlive⟩
      rw [live_change_of_ne _ heq]
      exact hfree

theorem Kept.modify (assign : Object → Object) : Kept Q (modify address assign cells) := h.change hlive (.inl rfl)

theorem Kept.delete (hobject : Q object) : Kept Q (delete address cells) := h.change hlive (.inr ⟨rfl, hobject⟩)

end

theorem Kept.live_or_deleted (h : Kept Q cells) {cell : Cell Object} (hcell : cell ∈ cells) :
    (cell.deletes = 0 ∧ live cells cell.address = some cell.object) ∨ cell.deletes = 1 ∧ Q cell.object := by
  induction cells with
  | nil => cases hcell
  | cons first cells ih =>
    obtain ⟨hfree, hfirst, hrest⟩ := h
    rcases List.mem_cons.mp hcell with rfl | hmem
    · refine hfirst.imp_left fun hzero ↦ ⟨hzero, ?_⟩
      rw [live_cons_self, if_pos hzero]
    · refine (ih hrest hmem).imp_left fun hlive ↦ ⟨hlive.1, ?_⟩
      have hne : first.address ≠ cell.address := by
        intro heq
        rw [heq, hlive.2] at hfree
        cases hfree
      rw [live_cons_of_ne hne]
      exact hlive.2

theorem Kept.deletes_le_one (h : Kept Q cells) {cell : Cell Object} (hcell : cell ∈ cells) : cell.deletes ≤ 1 := by
  obtain ⟨hzero, _⟩ | ⟨hone, _⟩ := h.live_or_deleted hcell
  · omega
  · omega

end Kept

end FdeEmugl.Heap

import Mathlib.Data.List.Nodup
import Mathlib.Data.List.Range

/-!
# Lists linked through an array

Each cell of an array names the next index. A list of indices is linked from a first index to a
last one if following the cells visits exactly these indices, in order, and arrives at the
last one, which is no longer part of the list.
-/

namespace FdeEmugl.LinkedIndices

def Linked (next : ℕ → ℕ) (last : ℕ) : ℕ → List ℕ → Prop
  | first, [] => first = last
  | first, index :: rest => first = index ∧ Linked next last (next index) rest

variable {next next' : ℕ → ℕ} {first middle last : ℕ} {indices rest : List ℕ}

variable {index : ℕ}

/-- Only the cells of the list count. -/
theorem Linked.congr (h : Linked next last first indices)
    (hnext : ∀ index ∈ indices, next index = next' index) : Linked next' last first indices := by
  induction indices generalizing first with
  | nil => exact h
  | cons index rest ih =>
    refine ⟨h.1, ?_⟩
    rw [← hnext index (.head rest)]
    exact ih h.2 fun other hother ↦ hnext other (.tail index hother)

theorem linked_append : Linked next last first (indices ++ rest) ↔
      ∃ middle, Linked next middle first indices ∧ Linked next last middle rest := by
  induction indices generalizing first with
  | nil =>
    constructor
    · exact fun h ↦ ⟨first, rfl, h⟩
    · rintro ⟨middle, rfl, h⟩
      exact h
  | cons index indices ih =>
    simp only [List.cons_append, Linked, ih]
    constructor
    · rintro ⟨hfirst, middle, hindices, hrest⟩
      exact ⟨middle, ⟨hfirst, hindices⟩, hrest⟩
    · rintro ⟨middle, ⟨hfirst, hindices⟩, hrest⟩
      exact ⟨hfirst, middle, hindices, hrest⟩

/-- Cells that each name the next one. -/
theorem linked_range {start count : ℕ}
    (hnext : ∀ index, start ≤ index → index < start + count → next index = index + 1) :
    Linked next (start + count) start (List.range' start count) := by
  induction count generalizing start with
  | zero => rfl
  | succ count ih =>
    rw [List.range'_succ]
    refine ⟨rfl, ?_⟩
    rw [hnext start (Nat.le_refl start) (by omega), show start + (count + 1) = start + 1 + count by omega]
    exact ih fun index hstart hend ↦ hnext index (by omega) (by omega)

theorem Linked.head_eq (h : Linked next last first indices) :
    indices = [] ∧ first = last ∨ ∃ rest, indices = first :: rest ∧ Linked next last (next first) rest := by
  cases indices with
  | nil => exact .inl ⟨rfl, h⟩
  | cons index rest =>
    obtain ⟨rfl, hrest⟩ := h
    exact .inr ⟨rest, rfl, hrest⟩

/-- An index that is not the first one has a predecessor; the list goes on behind it. -/
theorem Linked.predecessor (h : Linked next last first indices) (hmem : index ∈ indices) (hne : index ≠ first) :
    ∃ before previous after, indices = before ++ previous :: index :: after ∧ next previous = index ∧
      Linked next last (next index) after := by
  induction indices generalizing first with
  | nil => cases hmem
  | cons head rest ih =>
    obtain ⟨rfl, hrest⟩ := h
    have hmem' : index ∈ rest := (List.mem_cons.mp hmem).resolve_left hne
    by_cases hnext : index = next first
    · obtain ⟨rfl, _⟩ | ⟨after, rfl, hafter⟩ := hrest.head_eq
      · cases hmem'
      · subst hnext
        exact ⟨[], first, after, rfl, rfl, hafter⟩
    · obtain ⟨before, previous, after, rfl, hprevious, hafter⟩ := ih hrest hmem' hnext
      exact ⟨first :: before, previous, after, rfl, hprevious, hafter⟩

/-- The predecessor takes over the link of the index that goes. -/
theorem Linked.unlink {before after : List ℕ} {previous : ℕ}
    (h : Linked next last first (before ++ previous :: index :: after))
    (hnodup : (before ++ previous :: index :: after).Nodup) :
    Linked (Function.update next previous (next index)) last first (before ++ previous :: after) := by
  obtain ⟨middle, hbefore, rfl, _, hafter⟩ := linked_append.mp h
  obtain ⟨_, hnodup', hdisjoint⟩ := List.nodup_append.mp hnodup
  have hkeep : ∀ other, other ≠ middle → Function.update next middle (next index) other = next other :=
    fun other hother ↦ Function.update_of_ne hother _ _
  refine linked_append.mpr ⟨middle, hbefore.congr fun other hother ↦ (hkeep other ?_).symm, rfl, ?_⟩
  · exact fun heq ↦ hdisjoint other hother middle (.head _) heq
  · rw [Function.update_self]
    refine hafter.congr fun other hother ↦ (hkeep other ?_).symm
    rintro rfl
    exact (List.nodup_cons.mp hnodup').1 (.tail index hother)

/-- Following the links to the index before a given one, for at most so many steps. -/
def findPrevious (next : ℕ → ℕ) (index : ℕ) : ℕ → ℕ → Option ℕ
  | 0, _ => none
  | fuel + 1, previous =>
    if next previous = index then some previous else findPrevious next index fuel (next previous)

theorem findPrevious_eq {before after : List ℕ} {previous fuel : ℕ}
    (h : Linked next last first (before ++ previous :: index :: after))
    (hnodup : (before ++ previous :: index :: after).Nodup) (hfuel : before.length < fuel) :
    findPrevious next index fuel first = some previous := by
  induction before generalizing first fuel with
  | nil =>
    obtain ⟨rfl, rfl, _⟩ := h
    obtain ⟨fuel, rfl⟩ := Nat.exists_eq_succ_of_ne_zero (Nat.ne_of_gt hfuel)
    exact if_pos rfl
  | cons head before ih =>
    obtain ⟨rfl, hrest⟩ := h
    obtain ⟨fuel, rfl⟩ := Nat.exists_eq_succ_of_ne_zero (Nat.ne_of_gt (Nat.zero_lt_of_lt hfuel))
    have hnodup' : (before ++ previous :: index :: after).Nodup := (List.nodup_cons.mp hnodup).2
    have hne : next first ≠ index := by
      intro heq
      rw [heq] at hrest
      -- the rest of the list starts with another index
      have hlater : index ∉ before ++ [previous] := by
        rw [show before ++ previous :: index :: after = (before ++ [previous]) ++ index :: after by simp] at hnodup'
        exact fun hmem ↦ (List.nodup_append.mp hnodup').2.2 index hmem index (.head _) rfl
      cases before with
      | nil => exact hlater (by rw [hrest.1]; exact .head _)
      | cons head' before => exact hlater (by rw [hrest.1]; exact .head _)
    simp only [findPrevious, if_neg hne]
    exact ih hrest hnodup' (Nat.lt_of_succ_lt_succ hfuel)

end FdeEmugl.LinkedIndices

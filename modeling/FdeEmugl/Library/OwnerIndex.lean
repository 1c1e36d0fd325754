import Mathlib.Data.List.Nodup

/-!
# Objects listed under their owners

An index keeps, next to the objects that are live, a list of keys for every owner. It is
consistent when what is listed is live and listed once. The rules below say what has to be
known about a creation, a removal or the end of an owner for the index to stay consistent.
-/

namespace FdeEmugl.OwnerIndex

variable {Key Owner : Type*}

structure Consistent (live : Key → Prop) (owned : Owner → List Key) : Prop where
  live_of_mem : ∀ owner, ∀ key ∈ owned owner, live key
  nodup : ∀ owner, (owned owner).Nodup
  owner_unique : ∀ owner other key, key ∈ owned owner → key ∈ owned other → owner = other

variable {live live' : Key → Prop} {owned : Owner → List Key} {key : Key} {owner : Owner}

theorem consistent_nil (live : Key → Prop) : Consistent live fun _ : Owner ↦ [] where
  live_of_mem _ _ hmem := by cases hmem
  nodup _ := .nil
  owner_unique _ _ _ hmem := by cases hmem

/-- Objects that no owner lists may come and go. -/
theorem Consistent.of_owned (h : Consistent live owned)
    (hlive : ∀ owner, ∀ key ∈ owned owner, live key → live' key) : Consistent live' owned where
  live_of_mem owner key hmem := hlive owner key hmem (h.live_of_mem owner key hmem)
  nodup := h.nodup
  owner_unique := h.owner_unique

section Update

variable [DecidableEq Owner]

theorem mem_update {keys : List Key} {other : Owner} (hmem : key ∈ Function.update owned owner keys other) :
    other = owner ∧ key ∈ keys ∨ other ≠ owner ∧ key ∈ owned other := by
  by_cases heq : other = owner
  · rw [heq, Function.update_self] at hmem
    exact .inl ⟨heq, hmem⟩
  · rw [Function.update_of_ne heq] at hmem
    exact .inr ⟨heq, hmem⟩

section

variable (h : Consistent live owned)
include h

/-- The list of one owner changes to keys that are live and that no other owner lists. -/
theorem Consistent.update {keys : List Key} (hnodup : keys.Nodup) (hkeys : ∀ key ∈ keys, live' key)
    (hothers : ∀ other, other ≠ owner → ∀ key ∈ owned other, live' key ∧ key ∉ keys) :
    Consistent live' (Function.update owned owner keys) where
  live_of_mem other key hmem := by
    obtain ⟨_, hmem⟩ | ⟨hne, hmem⟩ := mem_update hmem
    · exact hkeys key hmem
    · exact (hothers other hne key hmem).1
  nodup other := by
    by_cases heq : other = owner
    · rwa [heq, Function.update_self]
    · rw [Function.update_of_ne heq]
      exact h.nodup other
  owner_unique first second key hfirst hsecond := by
    obtain ⟨heq, hnew⟩ | ⟨hne, hold⟩ := mem_update hfirst
    · obtain ⟨heq', _⟩ | ⟨hne', hold'⟩ := mem_update hsecond
      · rw [heq, heq']
      · exact absurd hnew (hothers second hne' key hold').2
    · obtain ⟨_, hnew'⟩ | ⟨_, hold'⟩ := mem_update hsecond
      · exact absurd hnew' (hothers first hne key hold).2
      · exact h.owner_unique first second key hold hold'

/-- A new object is listed under its owner. -/
theorem Consistent.insert [DecidableEq Key] (hfresh : ¬ live key) (hlive : ∀ other, live other → live' other)
    (hkey : live' key) : Consistent live' (Function.update owned owner ((owned owner).insert key)) := by
  refine h.update ((h.nodup owner).insert) (fun other hmem ↦ ?_) fun other hne listed hmem ↦ ?_
  · obtain rfl | hmem := List.mem_insert_iff.mp hmem
    · exact hkey
    · exact hlive other (h.live_of_mem owner other hmem)
  · have hlisted := h.live_of_mem other listed hmem
    refine ⟨hlive listed hlisted, fun hboth ↦ ?_⟩
    obtain rfl | hboth := List.mem_insert_iff.mp hboth
    · exact hfresh hlisted
    · exact hne (h.owner_unique other owner listed hmem hboth)

/-- An object is destroyed by its owner, or by anyone while it has none. -/
theorem Consistent.erase [DecidableEq Key] (hothers : ∀ other, key ∈ owned other → other = owner)
    (hlive : ∀ other, other ≠ key → live other → live' other) :
    Consistent live' (Function.update owned owner ((owned owner).erase key)) := by
  refine h.update ((h.nodup owner).erase key) (fun other hmem ↦ ?_) fun other hne listed hmem ↦ ?_
  · obtain ⟨hne, hmem⟩ := (h.nodup owner).mem_erase_iff.mp hmem
    exact hlive other hne (h.live_of_mem owner other hmem)
  · have hkey : listed ≠ key := by
      rintro rfl
      exact hne (hothers other hmem)
    refine ⟨hlive listed hkey (h.live_of_mem other listed hmem), fun hboth ↦ ?_⟩
    exact hne (h.owner_unique other owner listed hmem (List.mem_of_mem_erase hboth))

/-- An owner goes and takes what it lists along. -/
theorem Consistent.clear (hlive : ∀ key, key ∉ owned owner → live key → live' key) :
    Consistent live' (Function.update owned owner []) := by
  refine h.update .nil (fun key hmem ↦ by cases hmem) fun other hne key hmem ↦ ?_
  refine ⟨hlive key (fun hboth ↦ ?_) (h.live_of_mem other key hmem), List.not_mem_nil⟩
  exact hne (h.owner_unique other owner key hmem hboth)

end

end Update

end FdeEmugl.OwnerIndex

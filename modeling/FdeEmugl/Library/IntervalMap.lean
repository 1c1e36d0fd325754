import Mathlib.Data.List.Perm.Subperm
import Mathlib.Order.Nat
import FdeEmugl.Library.OrderedMap

/-!
# Sets of numbers as maps of intervals

An ordered map from the start of an interval to its length stands for the numbers
in its intervals. It is coalesced when no interval is empty and there is a gap
between any two. The lemmas describe how the set changes when the front of an
interval is taken away, when an interval is added, and when it is merged with the
intervals that it touches.
-/

namespace FdeEmugl.IntervalMap
open OrderedMap

/-- The point is in an interval. -/
def Covers (map : OrderedMap ℕ ℕ) (point : ℕ) : Prop :=
  ∃ entry ∈ map.entries, entry.1 ≤ point ∧ point < entry.1 + entry.2

structure Coalesced (limit : ℕ) (map : OrderedMap ℕ ℕ) : Prop where
  size_pos : ∀ entry ∈ map.entries, 0 < entry.2
  end_le : ∀ entry ∈ map.entries, entry.1 + entry.2 ≤ limit
  gap : ∀ entry ∈ map.entries, ∀ other ∈ map.entries, entry.1 < other.1 → entry.1 + entry.2 < other.1

variable {limit start size point : ℕ} {map next : OrderedMap ℕ ℕ}

/-! ## Taking the front of an interval -/

section Carve

variable {taken : ℕ}

/-- The map in which an interval has lost its front. -/
def Carved (map next : OrderedMap ℕ ℕ) (start size taken : ℕ) : Prop :=
  ∀ entry, entry ∈ next.entries ↔
    (entry ∈ map.entries ∧ entry.1 ≠ start) ∨ (taken < size ∧ entry = (start + taken, size - taken))

theorem Coalesced.carve (h : Coalesced limit map) (hentry : (start, size) ∈ map.entries) (hpos : 0 < taken)
    (hnext : Carved map next start size taken) : Coalesced limit next := by
  have hend := h.end_le _ hentry
  simp only at hend
  constructor
  · intro entry hmem
    obtain ⟨hmem, _⟩ | ⟨hlt, rfl⟩ := (hnext entry).mp hmem
    · exact h.size_pos entry hmem
    · exact Nat.sub_pos_of_lt hlt
  · intro entry hmem
    obtain ⟨hmem, _⟩ | ⟨hlt, rfl⟩ := (hnext entry).mp hmem
    · exact h.end_le entry hmem
    · simp only
      omega
  · intro entry hmem other hother hbefore
    obtain ⟨hmem, hne⟩ | ⟨hlt, rfl⟩ := (hnext entry).mp hmem <;>
      obtain ⟨hother, hne'⟩ | ⟨hlt', rfl⟩ := (hnext other).mp hother
    · exact h.gap entry hmem other hother hbefore
    · simp only at hbefore ⊢
      rcases lt_or_gt_of_ne hne with hless | hmore
      · have hgap := h.gap entry hmem _ hentry hless
        simp only at hgap
        omega
      · have hgap := h.gap _ hentry entry hmem hmore
        simp only at hgap
        omega
    · simp only at hbefore ⊢
      have hgap := h.gap _ hentry other hother (by simp only; omega)
      simp only at hgap
      omega
    · exact absurd hbefore (lt_irrefl _)

theorem covers_carved (h : Coalesced limit map) (hentry : (start, size) ∈ map.entries)
    (hle : taken ≤ size) (hnext : Carved map next start size taken) :
    Covers next point ↔ Covers map point ∧ ¬ (start ≤ point ∧ point < start + taken) := by
  constructor
  · rintro ⟨entry, hmem, hin⟩
    obtain ⟨hmem, hne⟩ | ⟨hlt, rfl⟩ := (hnext entry).mp hmem
    · refine ⟨⟨entry, hmem, hin⟩, ?_⟩
      rcases lt_or_gt_of_ne hne with hless | hmore
      · have hgap := h.gap entry hmem _ hentry hless
        simp only at hgap
        omega
      · have hgap := h.gap _ hentry entry hmem hmore
        simp only at hgap
        omega
    · simp only at hin
      refine ⟨⟨_, hentry, ?_⟩, by omega⟩
      simp only
      omega
  · rintro ⟨⟨entry, hmem, hin⟩, hout⟩
    by_cases heq : entry.1 = start
    · have hsize : entry.2 = size := by
        have hsame := eq_of_key hmem hentry heq
        rw [hsame]
      refine ⟨_, (hnext _).mpr (.inr ⟨by omega, rfl⟩), ?_⟩
      simp only
      omega
    · exact ⟨entry, (hnext entry).mpr (.inl ⟨hmem, heq⟩), hin⟩

end Carve

/-! ## Adding an interval -/

/-- Coalesced but for one interval, which may touch its neighbours. -/
structure Nearly (limit : ℕ) (map : OrderedMap ℕ ℕ) (special : ℕ × ℕ) : Prop where
  mem : special ∈ map.entries
  size_pos : ∀ entry ∈ map.entries, 0 < entry.2
  end_le : ∀ entry ∈ map.entries, entry.1 + entry.2 ≤ limit
  gap : ∀ entry ∈ map.entries, ∀ other ∈ map.entries, entry.1 ≠ special.1 → other.1 ≠ special.1 →
    entry.1 < other.1 → entry.1 + entry.2 < other.1
  below : ∀ entry ∈ map.entries, entry.1 < special.1 → entry.1 + entry.2 ≤ special.1
  above : ∀ entry ∈ map.entries, special.1 < entry.1 → special.1 + special.2 ≤ entry.1

/-- Nothing touches the interval from below. -/
def GapBelow (map : OrderedMap ℕ ℕ) (special : ℕ × ℕ) : Prop :=
  ∀ entry ∈ map.entries, entry.1 < special.1 → entry.1 + entry.2 < special.1

def GapAbove (map : OrderedMap ℕ ℕ) (special : ℕ × ℕ) : Prop :=
  ∀ entry ∈ map.entries, special.1 < entry.1 → special.1 + special.2 < entry.1

section Add

variable {special left right : ℕ × ℕ}

theorem Nearly.coalesced (h : Nearly limit map special) (hbelow : GapBelow map special)
    (habove : GapAbove map special) : Coalesced limit map where
  size_pos := h.size_pos
  end_le := h.end_le
  gap := by
    intro entry hentry other hother hlt
    by_cases hself : entry.1 = special.1
    · obtain rfl := eq_of_key hentry h.mem hself
      exact habove other hother hlt
    · by_cases hself' : other.1 = special.1
      · obtain rfl := eq_of_key hother h.mem hself'
        exact hbelow entry hentry hlt
      · exact h.gap entry hentry other hother hself hself' hlt

theorem Coalesced.find_eq_none (h : Coalesced limit map) (hfree : ¬ Covers map start) : map.find start = none := by
  refine OrderedMap.find_eq_none.mpr fun entry hentry heq ↦ hfree ⟨entry, hentry, heq.le, ?_⟩
  have hpos := h.size_pos entry hentry
  omega

/-- An interval whose points are all free is added. -/
theorem Coalesced.add (h : Coalesced limit map) (hpos : 0 < size) (hend : start + size ≤ limit)
    (hfree : ∀ point, start ≤ point → point < start + size → ¬ Covers map point)
    (hnone : map.find start = none) : Nearly limit (map.add start size hnone) (start, size) := by
  have hapart : ∀ entry ∈ map.entries, (entry.1 < start → entry.1 + entry.2 ≤ start) ∧
      (start < entry.1 → start + size ≤ entry.1) := by
    intro entry hentry
    have hsize := h.size_pos entry hentry
    constructor
    · intro hlt
      by_contra hover
      exact hfree start le_rfl (by omega) ⟨entry, hentry, hlt.le, by omega⟩
    · intro hlt
      by_contra hover
      exact hfree entry.1 hlt.le (by omega) ⟨entry, hentry, le_rfl, by omega⟩
  constructor
  · exact mem_add.mpr (.inl rfl)
  · intro entry hmem
    rcases mem_add.mp hmem with rfl | hmem
    · exact hpos
    · exact h.size_pos entry hmem
  · intro entry hmem
    rcases mem_add.mp hmem with rfl | hmem
    · exact hend
    · exact h.end_le entry hmem
  · intro entry hmem other hother hne hne' hlt
    rcases mem_add.mp hmem with rfl | hmem
    · exact absurd rfl hne
    rcases mem_add.mp hother with rfl | hother
    · exact absurd rfl hne'
    · exact h.gap entry hmem other hother hlt
  · intro entry hmem hlt
    rcases mem_add.mp hmem with rfl | hmem
    · exact absurd hlt (lt_irrefl _)
    · exact (hapart entry hmem).1 hlt
  · intro entry hmem hlt
    rcases mem_add.mp hmem with rfl | hmem
    · exact absurd hlt (lt_irrefl _)
    · exact (hapart entry hmem).2 hlt

theorem covers_add (hnone : map.find start = none) :
    Covers (map.add start size hnone) point ↔ Covers map point ∨ (start ≤ point ∧ point < start + size) := by
  constructor
  · rintro ⟨entry, hmem, hin⟩
    rcases mem_add.mp hmem with rfl | hmem
    · exact .inr hin
    · exact .inl ⟨entry, hmem, hin⟩
  · rintro (⟨entry, hmem, hin⟩ | hin)
    · exact ⟨entry, mem_add.mpr (.inr hmem), hin⟩
    · exact ⟨_, mem_add.mpr (.inl rfl), hin⟩

/-- The map in which two intervals have become one. -/
def Merged (map next : OrderedMap ℕ ℕ) (left right : ℕ × ℕ) : Prop :=
  ∀ entry, entry ∈ next.entries ↔
    (entry ∈ map.entries ∧ entry.1 ≠ left.1 ∧ entry.1 ≠ right.1) ∨ entry = (left.1, left.2 + right.2)

theorem covers_merged (hleft : left ∈ map.entries) (hright : right ∈ map.entries)
    (htouch : left.1 + left.2 = right.1) (hnext : Merged map next left right) :
    Covers next point ↔ Covers map point := by
  constructor
  · rintro ⟨entry, hmem, hin⟩
    obtain ⟨hmem, _⟩ | rfl := (hnext entry).mp hmem
    · exact ⟨entry, hmem, hin⟩
    · simp only at hin
      by_cases hless : point < right.1
      · exact ⟨left, hleft, by omega⟩
      · exact ⟨right, hright, by omega⟩
  · rintro ⟨entry, hmem, hin⟩
    by_cases hl : entry.1 = left.1
    · obtain rfl := eq_of_key hmem hleft hl
      refine ⟨_, (hnext _).mpr (.inr rfl), ?_⟩
      simp only
      omega
    · by_cases hr : entry.1 = right.1
      · obtain rfl := eq_of_key hmem hright hr
        refine ⟨_, (hnext _).mpr (.inr rfl), ?_⟩
        simp only
        omega
      · exact ⟨entry, (hnext entry).mpr (.inl ⟨hmem, hl, hr⟩), hin⟩

/-- The interval is merged with the one that it touches below. -/
theorem Nearly.merge_below (h : Nearly limit map special) (hleft : left ∈ map.entries)
    (htouch : left.1 + left.2 = special.1) (hnext : Merged map next left special) :
    Nearly limit next (left.1, left.2 + special.2) ∧ GapBelow next (left.1, left.2 + special.2) := by
  have hpos := h.size_pos left hleft
  have hend := h.end_le special h.mem
  have hne : left.1 ≠ special.1 := by omega
  have hbelow : GapBelow next (left.1, left.2 + special.2) := by
    intro entry hmem hlt
    obtain ⟨hmem, hl, hs⟩ | rfl := (hnext entry).mp hmem
    · exact h.gap entry hmem left hleft hs hne hlt
    · exact absurd hlt (lt_irrefl _)
  refine ⟨⟨(hnext _).mpr (.inr rfl), ?_, ?_, ?_, fun entry hmem hlt ↦ (hbelow entry hmem hlt).le, ?_⟩, hbelow⟩
  · intro entry hmem
    obtain ⟨hmem, _⟩ | rfl := (hnext entry).mp hmem
    · exact h.size_pos entry hmem
    · simp only
      omega
  · intro entry hmem
    obtain ⟨hmem, _⟩ | rfl := (hnext entry).mp hmem
    · exact h.end_le entry hmem
    · simp only
      omega
  · intro entry hmem other hother hself hself' hlt
    obtain ⟨hmem, hl, hs⟩ | rfl := (hnext entry).mp hmem
    · obtain ⟨hother, hl', hs'⟩ | rfl := (hnext other).mp hother
      · exact h.gap entry hmem other hother hs hs' hlt
      · exact absurd rfl hself'
    · exact absurd rfl hself
  · intro entry hmem hlt
    obtain ⟨hmem, hl, hs⟩ | rfl := (hnext entry).mp hmem
    · have hafter : special.1 < entry.1 := by
        by_contra hnot
        have hgap := h.below entry hmem (by omega)
        have hgap' := h.gap left hleft entry hmem hne hs hlt
        have hsize := h.size_pos entry hmem
        omega
      have hgap := h.above entry hmem hafter
      simp only
      omega
    · exact absurd hlt (lt_irrefl _)

/-- The interval is merged with the one that it touches above. -/
theorem Nearly.merge_above (h : Nearly limit map special) (hbelow : GapBelow map special)
    (hright : right ∈ map.entries) (htouch : special.1 + special.2 = right.1)
    (hnext : Merged map next special right) : Coalesced limit next := by
  have hpos := h.size_pos special h.mem
  have hpos' := h.size_pos right hright
  have hend := h.end_le right hright
  have hne : right.1 ≠ special.1 := by omega
  constructor
  · intro entry hmem
    obtain ⟨hmem, _⟩ | rfl := (hnext entry).mp hmem
    · exact h.size_pos entry hmem
    · simp only
      omega
  · intro entry hmem
    obtain ⟨hmem, _⟩ | rfl := (hnext entry).mp hmem
    · exact h.end_le entry hmem
    · simp only
      omega
  · intro entry hmem other hother hlt
    obtain ⟨hmem, hs, hr⟩ | rfl := (hnext entry).mp hmem <;>
      obtain ⟨hother, hs', hr'⟩ | rfl := (hnext other).mp hother
    · exact h.gap entry hmem other hother hs hs' hlt
    · exact hbelow entry hmem hlt
    · -- what is above the interval is above the one it touches
      have habove := h.above other hother hlt
      have hgap := h.gap right hright other hother hne hs' (by omega)
      simp only
      omega
    · exact absurd hlt (lt_irrefl _)

end Add

/-- A coalesced map that covers everything is one interval. -/
theorem Coalesced.entries_of_covers (h : Coalesced limit map) (hpos : 0 < limit)
    (hall : ∀ point < limit, Covers map point) : map.entries = [(0, limit)] := by
  obtain ⟨first, hfirst, hstart, hbelow⟩ := hall 0 hpos
  have hend := h.end_le first hfirst
  have hfull : first = (0, limit) := by
    by_contra hne
    have hsize : first.2 < limit := by
      refine lt_of_le_of_ne (by omega) fun heq ↦ hne (Prod.ext (by simp only; omega) heq)
    -- the point behind the first interval is in another one, which would have to touch it
    obtain ⟨other, hother, hstart', hbelow'⟩ := hall first.2 hsize
    have hless : first.1 < other.1 := by
      by_contra hle
      have heq := eq_of_key hother hfirst (by omega)
      rw [heq] at hbelow'
      omega
    have hgap := h.gap first hfirst other hother hless
    omega
  subst hfull
  refine List.perm_singleton.mp ((List.perm_ext_iff_of_nodup map.nodup_entries (List.nodup_singleton _)).mpr ?_)
  intro entry
  rw [List.mem_singleton]
  refine ⟨fun hentry ↦ ?_, fun heq ↦ heq ▸ hfirst⟩
  by_contra hne
  have hkey : 0 < entry.1 := Nat.pos_of_ne_zero fun heq ↦ hne (eq_of_key hentry hfirst heq)
  have hgap := h.gap _ hfirst entry hentry hkey
  have hend' := h.end_le entry hentry
  simp only at hgap
  omega

/-- There are no more intervals than points. -/
theorem Coalesced.length_le (h : Coalesced limit map) : map.entries.length ≤ limit := by
  have hnodup : (map.entries.map Prod.fst).Nodup := by
    refine List.pairwise_map.mpr (map.ordered.imp fun hlt ↦ hlt.ne)
  have hsubset : map.entries.map Prod.fst ⊆ List.range limit := by
    intro start hstart
    obtain ⟨entry, hentry, rfl⟩ := List.mem_map.mp hstart
    have hend := h.end_le entry hentry
    have hpos := h.size_pos entry hentry
    exact List.mem_range.mpr (by omega)
  have hlength := (List.subperm_of_subset hnodup hsubset).length_le
  rwa [List.length_map, List.length_range] at hlength

end FdeEmugl.IntervalMap

import Mathlib.Algebra.BigOperators.Ring.Finset
import Mathlib.Data.Int.Interval

/-!
# Sets of intervals of whole numbers

An interval is a start and a size. The intervals of a set are apart if none is empty and there is a gap
between any two. They stay apart, and the points they cover are those that one expects, if the front of
one is taken away or if an interval of free points is added and merged with those that it touches.
-/

namespace FdeEmugl.IntervalSet

/-- The point is in an interval. -/
def Covers (intervals : Set (ℤ × ℤ)) (point : ℤ) : Prop :=
  ∃ interval ∈ intervals, interval.1 ≤ point ∧ point < interval.1 + interval.2

structure Apart (intervals : Set (ℤ × ℤ)) : Prop where
  size_pos : ∀ interval ∈ intervals, 0 < interval.2
  gap : ∀ interval ∈ intervals, ∀ other ∈ intervals, interval.1 < other.1 → interval.1 + interval.2 < other.1
  eq_of_start : ∀ interval ∈ intervals, ∀ other ∈ intervals, interval.1 = other.1 → interval = other

variable {intervals next : Set (ℤ × ℤ)} {interval other : ℤ × ℤ} {start size point : ℤ}

/-- Two intervals are the same, or there is a gap between them. -/
theorem Apart.trichotomy (h : Apart intervals) (hinterval : interval ∈ intervals) (hother : other ∈ intervals) :
    interval = other ∨ interval.1 + interval.2 < other.1 ∨ other.1 + other.2 < interval.1 := by
  rcases lt_trichotomy interval.1 other.1 with hlt | heq | hgt
  · exact .inr (.inl (h.gap _ hinterval _ hother hlt))
  · exact .inl (h.eq_of_start _ hinterval _ hother heq)
  · exact .inr (.inr (h.gap _ hother _ hinterval hgt))

/-! ## Taking the front of an interval -/

section Carve

variable {taken : ℤ}

/-- The set in which an interval has lost its front. -/
def Carved (intervals next : Set (ℤ × ℤ)) (start size taken : ℤ) : Prop := ∀ interval, interval ∈ next ↔
    interval ∈ intervals ∧ interval ≠ (start, size) ∨ taken < size ∧ interval = (start + taken, size - taken)

section

variable (h : Apart intervals) (hmem : (start, size) ∈ intervals) (hpos : 0 < taken)
include h hmem hpos

theorem Apart.carve (hnext : Carved intervals next start size taken) : Apart next := by
  -- every interval of the new set lies in one of the old, and two in one are the same
  have hinside : ∀ interval ∈ next, ∃ old ∈ intervals, old.1 ≤ interval.1 ∧ 0 < interval.2 ∧
      interval.1 + interval.2 = old.1 + old.2 ∧ (old = (start, size) → interval = (start + taken, size - taken)) ∧
        (old ≠ (start, size) → interval = old) := by
    intro interval hinterval
    obtain ⟨hold, hne⟩ | ⟨hless, rfl⟩ := (hnext interval).mp hinterval
    · exact ⟨interval, hold, le_rfl, h.size_pos _ hold, rfl, fun heq ↦ absurd heq hne, fun _ ↦ rfl⟩
    · refine ⟨(start, size), hmem, ?_, ?_, ?_, fun _ ↦ rfl, fun hne ↦ absurd rfl hne⟩ <;> simp only <;> omega
  have hsame : ∀ interval ∈ next, ∀ other ∈ next,
      interval = other ∨ interval.1 + interval.2 < other.1 ∨ other.1 + other.2 < interval.1 := by
    intro interval hinterval other hother
    obtain ⟨old, hold, hle, _, hend, hcut, hkept⟩ := hinside interval hinterval
    obtain ⟨old', hold', hle', _, hend', hcut', hkept'⟩ := hinside other hother
    rcases h.trichotomy hold hold' with rfl | hbefore | hafter
    · by_cases heq : old = (start, size)
      · exact .inl ((hcut heq).trans (hcut' heq).symm)
      · exact .inl ((hkept heq).trans (hkept' heq).symm)
    · exact .inr (.inl (by omega))
    · exact .inr (.inr (by omega))
  have hpositive : ∀ interval ∈ next, 0 < interval.2 := by
    intro interval hinterval
    obtain ⟨_, _, _, hpositive, _⟩ := hinside interval hinterval
    exact hpositive
  refine ⟨hpositive, fun interval hinterval other hother hlt ↦ ?_, fun interval hinterval other hother heq ↦ ?_⟩
  · rcases hsame interval hinterval other hother with rfl | hbefore | hafter
    · omega
    · exact hbefore
    · have hother' := hpositive other hother
      omega
  · rcases hsame interval hinterval other hother with hsame | hbefore | hafter
    · exact hsame
    · have hinterval' := hpositive interval hinterval
      omega
    · have hother' := hpositive other hother
      omega

theorem covers_carved (hle : taken ≤ size) (hnext : Carved intervals next start size taken) :
    Covers next point ↔ Covers intervals point ∧ ¬ (start ≤ point ∧ point < start + taken) := by
  constructor
  · rintro ⟨interval, hinterval, hin⟩
    obtain ⟨hold, hne⟩ | ⟨hless, rfl⟩ := (hnext interval).mp hinterval
    · refine ⟨⟨interval, hold, hin⟩, ?_⟩
      rcases h.trichotomy hold hmem with heq | hbefore | hafter
      · exact absurd heq hne
      · simp only at hbefore
        omega
      · simp only at hafter
        omega
    · simp only at hin
      exact ⟨⟨_, hmem, by simp only; omega⟩, by omega⟩
  · rintro ⟨⟨interval, hold, hin⟩, hout⟩
    by_cases heq : interval = (start, size)
    · subst heq
      simp only at hin
      exact ⟨_, (hnext _).mpr (.inr ⟨by omega, rfl⟩), by simp only; omega⟩
    · exact ⟨interval, (hnext interval).mpr (.inl ⟨hold, heq⟩), hin⟩

end

end Carve

/-! ## Adding an interval -/

section Merge

variable {left right : ℤ}

/-- The size of the interval that ends at a point, 0 if there is none. -/
def EndsAt (intervals : Set (ℤ × ℤ)) (point left : ℤ) : Prop :=
  (∃ interval ∈ intervals, interval.1 + interval.2 = point ∧ left = interval.2) ∨
    left = 0 ∧ ∀ interval ∈ intervals, interval.1 + interval.2 ≠ point

/-- The size of the interval that begins at a point, 0 if there is none. -/
def BeginsAt (intervals : Set (ℤ × ℤ)) (point right : ℤ) : Prop :=
  (∃ interval ∈ intervals, interval.1 = point ∧ right = interval.2) ∨
    right = 0 ∧ ∀ interval ∈ intervals, interval.1 ≠ point

/-- The set in which an interval has been joined with those that it touches. -/
def Joined (intervals next : Set (ℤ × ℤ)) (start size left right : ℤ) : Prop := ∀ interval, interval ∈ next ↔
    interval = (start - left, left + size + right) ∨
      interval ∈ intervals ∧ interval.1 + interval.2 ≠ start ∧ interval.1 ≠ start + size

/-- No point of the interval is covered. -/
def Free (intervals : Set (ℤ × ℤ)) (start size : ℤ) : Prop :=
  ∀ point, start ≤ point → point < start + size → ¬ Covers intervals point

/-- An interval lies before or behind one that is free. -/
theorem Apart.beside (h : Apart intervals) (hpos : 0 < size) (hfree : Free intervals start size)
    (hinterval : interval ∈ intervals) :
    interval.1 + interval.2 ≤ start ∨ start + size ≤ interval.1 := by
  have hsize := h.size_pos _ hinterval
  by_contra hover
  refine hfree (max interval.1 start) (le_max_right _ _) (by omega) ⟨interval, hinterval, le_max_left _ _, ?_⟩
  omega

/-- Where the interval on the left is, if there is one. -/
theorem EndsAt.spec (h : Apart intervals) (hends : EndsAt intervals start left) :
    0 ≤ left ∧ (0 < left → (start - left, left) ∈ intervals) := by
  obtain ⟨before, hbefore, hend, rfl⟩ | ⟨rfl, -⟩ := hends
  · have hsize := h.size_pos _ hbefore
    have heq : (start - before.2, before.2) = before := Prod.ext (by simp only; omega) rfl
    exact ⟨hsize.le, fun _ ↦ heq ▸ hbefore⟩
  · exact ⟨le_rfl, fun hlt ↦ absurd hlt (lt_irrefl _)⟩

theorem BeginsAt.spec (h : Apart intervals) (hbegins : BeginsAt intervals start right) :
    0 ≤ right ∧ (0 < right → (start, right) ∈ intervals) := by
  obtain ⟨after, hafter, rfl, rfl⟩ | ⟨rfl, -⟩ := hbegins
  · exact ⟨(h.size_pos _ hafter).le, fun _ ↦ hafter⟩
  · exact ⟨le_rfl, fun hlt ↦ absurd hlt (lt_irrefl _)⟩

section

variable (h : Apart intervals) (hpos : 0 < size) (hfree : Free intervals start size)
  (hends : EndsAt intervals start left) (hbegins : BeginsAt intervals (start + size) right)
include h hpos hfree hends hbegins

/-- The joined interval keeps a gap from the others. -/
theorem Apart.away (hinterval : interval ∈ intervals) (hend : interval.1 + interval.2 ≠ start)
    (hbegin : interval.1 ≠ start + size) :
    interval.1 + interval.2 < start - left ∨ start + size + right < interval.1 := by
  obtain ⟨hleft, hbefore⟩ := hends.spec h
  obtain ⟨hright, hafter⟩ := hbegins.spec h
  rcases h.beside hpos hfree hinterval with hlow | hhigh
  · refine .inl ?_
    rcases hleft.eq_or_lt with hzero | hsome
    · omega
    · have hother := h.size_pos _ hinterval
      rcases h.trichotomy hinterval (hbefore hsome) with rfl | hless | hmore
      · exact absurd (by simp only; omega) hend
      · exact hless
      · simp only at hmore
        omega
  · refine .inr ?_
    rcases hright.eq_or_lt with hzero | hsome
    · omega
    · rcases h.trichotomy hinterval (hafter hsome) with rfl | hless | hmore
      · exact absurd rfl hbegin
      · have hother := h.size_pos _ hinterval
        simp only at hless
        omega
      · exact hmore

theorem Apart.join (hnext : Joined intervals next start size left right) : Apart next := by
  have hleft := (hends.spec h).1
  have hright := (hbegins.spec h).1
  have hsame : ∀ interval ∈ next, ∀ other ∈ next,
      interval = other ∨ interval.1 + interval.2 < other.1 ∨ other.1 + other.2 < interval.1 := by
    intro interval hinterval other hother
    obtain rfl | ⟨hold, hend, hbegin⟩ := (hnext interval).mp hinterval <;>
      obtain rfl | ⟨hold', hend', hbegin'⟩ := (hnext other).mp hother
    · exact .inl rfl
    · have haway := h.away hpos hfree hends hbegins hold' hend' hbegin'
      simp only
      omega
    · have haway := h.away hpos hfree hends hbegins hold hend hbegin
      simp only
      omega
    · exact h.trichotomy hold hold'
  have hpositive : ∀ interval ∈ next, 0 < interval.2 := by
    intro interval hinterval
    obtain rfl | ⟨hold, -, -⟩ := (hnext interval).mp hinterval
    · simp only
      omega
    · exact h.size_pos _ hold
  refine ⟨hpositive, fun interval hinterval other hother hlt ↦ ?_, fun interval hinterval other hother heq ↦ ?_⟩
  · have hother' := hpositive other hother
    rcases hsame interval hinterval other hother with rfl | hbefore | hafter <;> omega
  · have hinterval' := hpositive interval hinterval
    have hother' := hpositive other hother
    rcases hsame interval hinterval other hother with hsame | hbefore | hafter
    · exact hsame
    · omega
    · omega

end

theorem covers_joined (h : Apart intervals) (hpos : 0 < size) (hends : EndsAt intervals start left)
    (hbegins : BeginsAt intervals (start + size) right) (hnext : Joined intervals next start size left right) :
    Covers next point ↔ Covers intervals point ∨ start ≤ point ∧ point < start + size := by
  obtain ⟨hleft, hbefore⟩ := hends.spec h
  obtain ⟨hright, hafter⟩ := hbegins.spec h
  constructor
  · rintro ⟨interval, hinterval, hin⟩
    obtain rfl | ⟨hold, -, -⟩ := (hnext interval).mp hinterval
    · simp only at hin
      by_cases hlow : point < start
      · exact .inl ⟨_, hbefore (by omega), by simp only; omega⟩
      · by_cases hhigh : point < start + size
        · exact .inr ⟨by omega, hhigh⟩
        · exact .inl ⟨_, hafter (by omega), by simp only; omega⟩
    · exact .inl ⟨interval, hold, hin⟩
  · have hjoined : (start - left, left + size + right) ∈ next := (hnext _).mpr (.inl rfl)
    rintro (⟨interval, hold, hin⟩ | hin)
    · by_cases hend : interval.1 + interval.2 = start
      · refine ⟨_, hjoined, ?_⟩
        rcases hends with ⟨before, hmem, hend', rfl⟩ | ⟨-, hnone⟩
        · have hsize := h.size_pos _ hold
          have hsize' := h.size_pos _ hmem
          rcases h.trichotomy hold hmem with rfl | hless | hmore
          · simp only
            omega
          · omega
          · omega
        · exact absurd hend (hnone _ hold)
      · by_cases hbegin : interval.1 = start + size
        · refine ⟨_, hjoined, ?_⟩
          rcases hbegins with ⟨after, hmem, hbegin', rfl⟩ | ⟨-, hnone⟩
          · obtain rfl := h.eq_of_start _ hold _ hmem (hbegin.trans hbegin'.symm)
            simp only
            omega
          · exact absurd hbegin (hnone _ hold)
        · exact ⟨interval, (hnext interval).mpr (.inr ⟨hold, hend, hbegin⟩), hin⟩
    · exact ⟨_, hjoined, by simp only; omega⟩

end Merge

/-! ## Counting -/

/-- The order in which the points of an interval are listed. -/
scoped instance intPreorder : Preorder ℤ := Int.instLinearOrder.toPreorder

/-- The points in the intervals of a list. -/
def points (intervals : List (ℤ × ℤ)) : Finset ℤ :=
  intervals.toFinset.biUnion fun interval ↦ Finset.Ico interval.1 (interval.1 + interval.2)

theorem mem_points {list : List (ℤ × ℤ)} : point ∈ points list ↔ Covers {interval | interval ∈ list} point := by
  simp [points, Covers]

theorem card_points {list : List (ℤ × ℤ)} (hnodup : list.Nodup) (h : Apart {interval | interval ∈ list}) :
    ((points list).card : ℤ) = (list.map Prod.snd).sum := by
  have hdisjoint : Set.PairwiseDisjoint (list.toFinset : Set (ℤ × ℤ))
      fun interval ↦ Finset.Ico interval.1 (interval.1 + interval.2) := by
    intro interval hinterval other hother hne
    rw [Function.onFun, Finset.disjoint_left]
    intro point hpoint hpoint'
    rw [Finset.mem_Ico] at hpoint hpoint'
    have hmem : interval ∈ list := by simpa using hinterval
    have hmem' : other ∈ list := by simpa using hother
    rcases h.trichotomy hmem hmem' with heq | hbefore | hafter
    · exact hne heq
    · omega
    · omega
  rw [points, Finset.card_biUnion hdisjoint, ← List.sum_toFinset _ hnodup, Nat.cast_sum]
  refine Finset.sum_congr rfl fun interval hinterval ↦ ?_
  have hpos := h.size_pos interval (List.mem_toFinset.mp hinterval)
  rw [Int.card_Ico]
  omega

end FdeEmugl.IntervalSet

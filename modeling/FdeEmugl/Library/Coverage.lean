import Mathlib.Algebra.Order.BigOperators.Group.Finset
import Mathlib.Algebra.BigOperators.Intervals

/-!
# How often ranges cover a point

A range has a start and an integral size; one whose size is not positive covers nothing. Ranges of a
list, and ranges owned by the members of a finite set, are counted at each point. Ranges are
disjoint where no point is counted twice, and they fill an interval where each of its points is
counted once.
-/

namespace FdeEmugl.Coverage

structure Range where
  start : ℕ
  size : ℤ
deriving Repr, DecidableEq

/-- 1 at the points of the range, 0 elsewhere. -/
def Range.covers (range : Range) (point : ℕ) : ℕ :=
  if range.start ≤ point ∧ (point : ℤ) < range.start + range.size then 1 else 0

/-- How many ranges of the list cover a point. -/
def cover (ranges : List Range) (point : ℕ) : ℕ := (ranges.map fun range ↦ range.covers point).sum

namespace Range

variable {range : Range}

theorem covers_eq_one {point : ℕ} (hstart : range.start ≤ point)
    (hend : (point : ℤ) < range.start + range.size) : range.covers point = 1 :=
  if_pos ⟨hstart, hend⟩

theorem covers_of_size_nonpos (h : range.size ≤ 0) (point : ℕ) : range.covers point = 0 :=
  if_neg fun hcovered ↦ by omega

/-- A range is cut in two. -/
theorem covers_add (start first : ℕ) {second : ℤ} (h : 0 ≤ second) (point : ℕ) :
    (Range.mk start (first + second)).covers point =
      (Range.mk start first).covers point + (Range.mk (start + first) second).covers point := by
  simp only [covers]
  split_ifs <;> omega

theorem covers_mono (start : ℕ) {size size' : ℤ} (h : size ≤ size') (point : ℕ) :
    (Range.mk start size).covers point ≤ (Range.mk start size').covers point := by
  simp only [covers]
  split_ifs <;> omega

/-- The number of points a range covers. -/
theorem sum_covers {limit : ℕ} (h : (range.start : ℤ) + range.size ≤ limit) :
    ∑ point ∈ Finset.range limit, range.covers point = range.size.toNat := by
  have hcovered (point : ℕ) : range.covers point =
      if point ∈ Finset.Ico range.start (range.start + range.size.toNat) then 1 else 0 := by
    unfold covers
    congr 1
    rw [Finset.mem_Ico, eq_iff_iff]
    omega
  have hinside : (Finset.range limit).filter
      (fun point ↦ point ∈ Finset.Ico range.start (range.start + range.size.toNat)) =
        Finset.Ico range.start (range.start + range.size.toNat) := by
    ext point
    simp only [Finset.mem_filter, Finset.mem_range, Finset.mem_Ico]
    omega
  calc ∑ point ∈ Finset.range limit, range.covers point = ∑ point ∈ Finset.range limit,
          if point ∈ Finset.Ico range.start (range.start + range.size.toNat) then 1 else 0 :=
        Finset.sum_congr rfl fun point _ ↦ hcovered point
    _ = (Finset.Ico range.start (range.start + range.size.toNat)).card := by
        rw [← Finset.card_filter, hinside]
    _ = range.size.toNat := by rw [Nat.card_Ico, Nat.add_sub_cancel_left]

/-- Ranges that share no point lie one behind the other. -/
theorem apart_of_covers {first second : Range} (hfirst : 0 < first.size) (hsecond : 0 < second.size)
    (h : ∀ point, first.covers point + second.covers point ≤ 1) :
    (first.start : ℤ) + first.size ≤ second.start ∨ (second.start : ℤ) + second.size ≤ first.start := by
  by_contra hmeet
  rw [not_or] at hmeet
  have hboth := h (max first.start second.start)
  rw [covers_eq_one (le_max_left _ _) (by omega), covers_eq_one (le_max_right _ _) (by omega)] at hboth
  omega

end Range

/-! ## Lists of ranges -/

variable {ranges : List Range}

@[simp] theorem cover_nil (point : ℕ) : cover [] point = 0 := rfl

@[simp] theorem cover_cons (range : Range) (ranges : List Range) (point : ℕ) :
    cover (range :: ranges) point = range.covers point + cover ranges point := by
  simp [cover]

@[simp] theorem cover_append (first second : List Range) (point : ℕ) :
    cover (first ++ second) point = cover first point + cover second point := by
  simp [cover]

theorem cover_perm {first second : List Range} (h : first.Perm second) (point : ℕ) :
    cover first point = cover second point :=
  (h.map _).sum_eq

theorem cover_sublist {first second : List Range} (h : first.Sublist second) (point : ℕ) :
    cover first point ≤ cover second point := by
  induction h with
  | slnil => exact le_rfl
  | cons range _ ih =>
    rw [cover_cons]
    omega
  | cons_cons range _ ih =>
    rw [cover_cons, cover_cons]
    omega

/-- A range is taken out of the list. -/
theorem cover_erase {range : Range} (h : range ∈ ranges) (point : ℕ) :
    cover (ranges.erase range) point + range.covers point = cover ranges point := by
  rw [cover_perm (List.perm_cons_erase h), cover_cons, Nat.add_comm]

theorem covers_le_cover {range : Range} (h : range ∈ ranges) (point : ℕ) :
    range.covers point ≤ cover ranges point := by
  have herase := cover_erase h point
  omega

/-- The number of points covered by ranges below a limit, each counted as often as it is covered. -/
theorem sum_cover {limit : ℕ} (h : ∀ range ∈ ranges, (range.start : ℤ) + range.size ≤ limit) :
    ∑ point ∈ Finset.range limit, cover ranges point = (ranges.map fun range ↦ range.size.toNat).sum := by
  induction ranges with
  | nil => simp
  | cons range ranges ih =>
    have hrest : ∀ other ∈ ranges, (other.start : ℤ) + other.size ≤ limit := fun other hother ↦
      h other (.tail range hother)
    simp only [cover_cons, Finset.sum_add_distrib, List.map_cons, List.sum_cons, ih hrest,
      Range.sum_covers (h range (.head ranges))]

/-! ## Owned ranges -/

section Owned

variable {Owner : Type*}

/-- How many owners' ranges cover a point. -/
def owned (owners : Finset Owner) (own : Owner → Range) (point : ℕ) : ℕ := ∑ owner ∈ owners, (own owner).covers point

variable {owners : Finset Owner}

/-- An owner gives up its range for another one. -/
theorem owned_update [DecidableEq Owner] {owner : Owner} (h : owner ∈ owners) (own : Owner → Range)
    (range : Range) (point : ℕ) :
    owned owners (Function.update own owner range) point + (own owner).covers point =
      owned owners own point + range.covers point := by
  have hrest : ∑ other ∈ owners \ {owner}, (Function.update own owner range other).covers point =
      ∑ other ∈ owners \ {owner}, (own other).covers point := by
    apply Finset.sum_congr rfl
    intro other hother
    rw [Finset.mem_sdiff, Finset.mem_singleton] at hother
    rw [Function.update_of_ne hother.2]
  rw [owned, owned, Finset.sum_eq_add_sum_sdiff_singleton_of_mem h,
    Finset.sum_eq_add_sum_sdiff_singleton_of_mem h, Function.update_self, hrest]
  omega

theorem owned_le {own own' : Owner → Range} {point : ℕ}
    (h : ∀ owner ∈ owners, (own owner).covers point ≤ (own' owner).covers point) :
    owned owners own point ≤ owned owners own' point :=
  Finset.sum_le_sum h

theorem covers_le_owned {owner : Owner} (h : owner ∈ owners) (own : Owner → Range) (point : ℕ) :
    (own owner).covers point ≤ owned owners own point :=
  Finset.single_le_sum (f := fun owner ↦ (own owner).covers point) (fun _ _ ↦ Nat.zero_le _) h

/-- Two owners count as two. -/
theorem covers_add_covers_le_owned [DecidableEq Owner] {first second : Owner} (hfirst : first ∈ owners)
    (hsecond : second ∈ owners) (hne : first ≠ second) (own : Owner → Range) (point : ℕ) :
    (own first).covers point + (own second).covers point ≤ owned owners own point := by
  have hsubset : ({first, second} : Finset Owner) ⊆ owners := by
    intro owner howner
    rw [Finset.mem_insert, Finset.mem_singleton] at howner
    obtain rfl | rfl := howner
    · exact hfirst
    · exact hsecond
  calc (own first).covers point + (own second).covers point = ∑ owner ∈ {first, second}, (own owner).covers point :=
        (Finset.sum_pair (f := fun owner ↦ (own owner).covers point) hne).symm
    _ ≤ owned owners own point := Finset.sum_le_sum_of_subset_of_nonneg hsubset fun _ _ _ ↦ Nat.zero_le _

end Owned

/-! ## An interval divided among owners and free ranges -/

section Divides

variable {Owner : Type*} {exact : Prop} {owners : Finset Owner} {own : Owner → Range}
  {free : List Range} {first last : ℕ}

/-- 1 at the points of the interval, 0 elsewhere. -/
def between (first last point : ℕ) : ℕ := if first ≤ point ∧ point < last then 1 else 0

/-- No point of the interval is owned or free twice and no other point is, and if nothing got lost
every point of the interval is owned or free. -/
def Divides (exact : Prop) (owners : Finset Owner) (own : Owner → Range) (free : List Range)
    (first last : ℕ) : Prop :=
  ∀ point, owned owners own point + cover free point ≤ between first last point ∧
    (exact → between first last point ≤ owned owners own point + cover free point)

variable {owner : Owner}

section

variable (h : Divides exact owners own free first last)
include h

/-- Ranges that cover less divide the interval too. -/
theorem Divides.of_le {own' : Owner → Range} {free' : List Range}
    (hown : ∀ owner ∈ owners, ∀ point, (own' owner).covers point ≤ (own owner).covers point)
    (hfree : ∀ point, cover free' point ≤ cover free point)
    (hexact : exact → (∀ owner ∈ owners, ∀ point, (own owner).covers point ≤ (own' owner).covers point) ∧ ∀ point, cover free point ≤ cover free' point) :
    Divides exact owners own' free' first last := by
  intro point
  obtain ⟨hle, hge⟩ := h point
  have howned : owned owners own' point ≤ owned owners own point :=
    owned_le fun owner howner ↦ hown owner howner point
  have hcover := hfree point
  refine ⟨by omega, fun he ↦ ?_⟩
  have howned' : owned owners own point ≤ owned owners own' point :=
    owned_le fun owner howner ↦ (hexact he).1 owner howner point
  have hcover' := (hexact he).2 point
  have hge := hge he
  omega

/-- A range that covers something lies in the interval. -/
theorem Divides.own_between (howner : owner ∈ owners) (hsize : 0 < (own owner).size) :
    first ≤ (own owner).start ∧ ((own owner).start : ℤ) + (own owner).size ≤ last := by
  have hinside (point : ℕ) (hstart : (own owner).start ≤ point)
      (hend : (point : ℤ) < (own owner).start + (own owner).size) : first ≤ point ∧ point < last := by
    have hone := Range.covers_eq_one hstart hend
    have hle := covers_le_owned howner own point
    have hpoint := (h point).1
    unfold between at hpoint
    split_ifs at hpoint with hbetween
    · exact hbetween
    · omega
  have hfirst := hinside (own owner).start le_rfl (by omega)
  have hlast := hinside ((own owner).start + (own owner).size.toNat - 1) (by omega) (by omega)
  omega

theorem Divides.free_between {range : Range} (hrange : range ∈ free) (hsize : 0 < range.size) :
    first ≤ range.start ∧ (range.start : ℤ) + range.size ≤ last := by
  have hinside (point : ℕ) (hstart : range.start ≤ point)
      (hend : (point : ℤ) < range.start + range.size) : first ≤ point ∧ point < last := by
    have hone := Range.covers_eq_one hstart hend
    have hle := covers_le_cover hrange point
    have hpoint := (h point).1
    unfold between at hpoint
    split_ifs at hpoint with hbetween
    · exact hbetween
    · omega
  have hfirst := hinside range.start le_rfl (by omega)
  have hlast := hinside (range.start + range.size.toNat - 1) (by omega) (by omega)
  omega

end

variable [DecidableEq Owner]

section

variable (h : Divides exact owners own free first last)
include h

/-- Two owners have nothing in common. -/
theorem Divides.apart {other : Owner} (howner : owner ∈ owners) (hother : other ∈ owners)
    (hne : owner ≠ other) (hsize : 0 < (own owner).size) (hsize' : 0 < (own other).size) :
    ((own owner).start : ℤ) + (own owner).size ≤ (own other).start ∨
      ((own other).start : ℤ) + (own other).size ≤ (own owner).start := by
  refine Range.apart_of_covers hsize hsize' fun point ↦ ?_
  have hboth := covers_add_covers_le_owned howner hother hne own point
  have hpoint := (h point).1
  have hone : between first last point ≤ 1 := by
    unfold between
    split_ifs <;> omega
  omega

/-- An owner trades its range, or a part of it, with the free ranges. -/
theorem Divides.exchange (howner : owner ∈ owners) {range : Range} {free' : List Range}
    (hle : ∀ point, range.covers point + cover free' point ≤ (own owner).covers point + cover free point)
    (hge : exact → ∀ point, (own owner).covers point + cover free point ≤ range.covers point + cover free' point) :
    Divides exact owners (Function.update own owner range) free' first last := by
  intro point
  have hupdate := owned_update howner own range point
  obtain ⟨hbelow, habove⟩ := h point
  refine ⟨?_, fun hexact ↦ ?_⟩
  · have hle := hle point
    omega
  · have hge := hge hexact point
    have habove := habove hexact
    omega

/-- An owner that has nothing gets a new range behind the interval. -/
theorem Divides.append (hlast : first ≤ last) (howner : owner ∈ owners)
    (hnone : ∀ point, (own owner).covers point = 0) (size : ℕ) :
    Divides exact owners (Function.update own owner ⟨last, size⟩) free first (last + size) := by
  intro point
  have hupdate := owned_update howner own ⟨last, size⟩ point
  have hnone := hnone point
  have hsplit : between first (last + size) point = between first last point + (Range.mk last size).covers point := by
    simp only [between, Range.covers]
    split_ifs <;> omega
  obtain ⟨hbelow, habove⟩ := h point
  rw [hsplit]
  refine ⟨by omega, fun hexact ↦ ?_⟩
  have habove := habove hexact
  omega

end

omit [DecidableEq Owner] in
/-- If nothing got lost, the sizes add up. -/
theorem Divides.sum_size (h : Divides exact owners own free first last) (hexact : exact)
    (hlast : first ≤ last) (hown : ∀ owner ∈ owners, 0 ≤ (own owner).size)
    (hfree : ∀ range ∈ free, 0 < range.size) :
    ∑ owner ∈ owners, (own owner).size.toNat + (free.map fun range ↦ range.size.toNat).sum = last - first := by
  have hfreeEnd : ∀ range ∈ free, (range.start : ℤ) + range.size ≤ last := fun range hrange ↦
    (h.free_between hrange (hfree range hrange)).2
  have howned : ∑ point ∈ Finset.range last, owned owners own point = ∑ owner ∈ owners, (own owner).size.toNat := by
    unfold owned
    rw [Finset.sum_comm]
    refine Finset.sum_congr rfl fun owner howner ↦ ?_
    by_cases hsize : 0 < (own owner).size
    · exact Range.sum_covers (h.own_between howner hsize).2
    · have hzero : (own owner).size = 0 := by
        have hnonneg := hown owner howner
        omega
      rw [hzero, Finset.sum_eq_zero fun point _ ↦ Range.covers_of_size_nonpos hzero.le point]
      rfl
  have hwhole : ∑ point ∈ Finset.range last, between first last point = last - first := by
    have hrange : ∀ point, between first last point = (Range.mk first ((last : ℤ) - first)).covers point := by
      intro point
      simp only [between, Range.covers]
      congr 1
      rw [eq_iff_iff]
      omega
    have hsize : ((last : ℤ) - first).toNat = last - first := by omega
    simp only [hrange]
    rw [Range.sum_covers (by simp only; omega), hsize]
  rw [← howned, ← sum_cover hfreeEnd, ← Finset.sum_add_distrib, ← hwhole]
  exact Finset.sum_congr rfl fun point _ ↦ le_antisymm (h point).1 ((h point).2 hexact)

end Divides

end FdeEmugl.Coverage

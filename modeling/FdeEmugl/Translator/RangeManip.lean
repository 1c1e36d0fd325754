import FdeEmugl.Library.Walk
import Mathlib.Algebra.Group.Nat.Defs
import Mathlib.Data.Int.ConditionallyCompleteOrder
import Mathlib.Order.ConditionallyCompleteLattice.Basic

/-!
# Lists of ranges

A range of `int`s has a start, an end and a size. Ranges are taken out of a list while it is walked, which puts what
is left of a range at its front; ranges that touch are merged.
-/

namespace FdeEmugl.Ranges

open List (forall_mem_cons length_cons mem_append)

/-! ## The code -/

/-- A number in an `int`. -/
def toInt (v : ℤ) : ℤ := Int.bmod v (2 ^ 32)

structure Range where
  m_start : ℤ
  m_end : ℤ
  m_size : ℤ
  deriving DecidableEq

namespace Range

def make (start size : ℤ) : Range := ⟨start, toInt (start + size), size⟩

def rangeIntersection (self r : Range) : Option Range :=
  if r.m_end < self.m_start ∨ self.m_end < r.m_start then none
  else
    let max_start := if r.m_start < self.m_start then self.m_start else r.m_start
    let min_end := if self.m_end < r.m_end then self.m_end else r.m_end
    let size := toInt (min_end - max_start)
    if size ≠ 0 then some (make max_start size) else none

def rangeUnion (self r : Range) : Option Range :=
  if r.m_end < self.m_start ∨ self.m_end < r.m_start then none
  else
    let min_start := if self.m_start < r.m_start then self.m_start else r.m_start
    let max_end := if r.m_end < self.m_end then self.m_end else r.m_end
    let size := toInt (max_end - min_start)
    if size ≠ 0 then some (make min_start size) else none

end Range

abbrev RangeList := List Range

namespace RangeList

def addRange (list : RangeList) (r : Range) : RangeList := if r.m_size ≠ 0 then list ++ [r] else list

def addRanges (list rl : RangeList) : RangeList := rl.foldl addRange list

/-- What is put at the front of the list for a range that was taken out. -/
def split (old intersection : Range) (list : RangeList) : RangeList :=
  if intersection ≠ old then
    let list :=
      if old.m_start ≠ intersection.m_start then
        Range.make old.m_start (toInt (intersection.m_start - old.m_start)) :: list
      else list
    if old.m_end ≠ intersection.m_end then
      Range.make intersection.m_end (toInt (old.m_end - intersection.m_end)) :: list
    else list
  else list

/-- One round at place `i`. After a removal `i` is decremented and incremented again. -/
def delRangeBody (r : Range) : ℕ × RangeList × RangeList → (ℕ × RangeList × RangeList) ⊕ (RangeList × RangeList)
  | (i, list, deleted) =>
    match list[i]? with
    | none => .inr (list, deleted)
    | some old =>
      match r.rangeIntersection old with
      | none => .inl (i + 1, list, deleted)
      | some intersection => .inl (i, split old intersection (list.eraseIdx i), addRange deleted intersection)

def delRange (fuel : ℕ) (r : Range) (list deleted : RangeList) : Option (RangeList × RangeList) :=
  if r.m_size = 0 then some (list, deleted) else Walk.loop (delRangeBody r) fuel (0, list, deleted)

def delRanges (fuel : ℕ) (rl : RangeList) (list deleted : RangeList) : Option (RangeList × RangeList) :=
  rl.foldlM (fun lists r ↦ delRange fuel r lists.1 lists.2) (list, deleted)

/-- The inner loop of a merge: the first range that can be united with `a`, and the others. -/
def uniteFirst (a : Range) : RangeList → Option (Range × RangeList)
  | [] => none
  | b :: list =>
    match a.rangeUnion b with
    | some temp => some (temp, list)
    | none => (uniteFirst a list).map fun (temp, list) ↦ (temp, b :: list)

/-- One run of a merge over all pairs, up to the first change. -/
def mergeOnce : RangeList → Option RangeList
  | [] => none
  | a :: list =>
    match uniteFirst a list with
    | some (temp, list) => some (temp :: list)
    | none => (mergeOnce list).map (a :: ·)

def mergeRounds : ℕ → RangeList → RangeList
  | 0, list => list
  | rounds + 1, list =>
    match mergeOnce list with
    | some changed => mergeRounds rounds changed
    | none => list

/-- Every change makes the list shorter, so this many rounds are enough. -/
def merge (list : RangeList) : RangeList := mergeRounds list.length list

end RangeList

open RangeList

/-! ## Points -/

def Range.points (r : Range) : Set ℤ := Set.Ico r.m_start r.m_end

def points (list : RangeList) : Set ℤ := {p | ∃ r ∈ list, p ∈ r.points}

/-- A range of `int`s that is not empty. -/
structure Proper (r : Range) : Prop where
  m_end : r.m_end = r.m_start + r.m_size
  pos : 0 < r.m_size
  fits : r.m_size < 2 ^ 31
  lower : -2 ^ 31 ≤ r.m_start
  upper : r.m_end < 2 ^ 31

/-- There is at least one point between the ranges. -/
def Separate (first second : Range) : Prop := second.m_end < first.m_start ∨ first.m_end < second.m_start

section Points

variable {r other intersection : Range} {list deleted first second : RangeList} {p start size : ℤ}

@[simp] theorem mem_points_range : p ∈ r.points ↔ r.m_start ≤ p ∧ p < r.m_end := Iff.rfl

@[simp] theorem points_nil : points [] = ∅ := Set.ext fun _ ↦ by simp [points]

theorem points_cons (r : Range) (list : RangeList) : points (r :: list) = r.points ∪ points list :=
  Set.ext fun _ ↦ by simp [points]

theorem points_append (first second : RangeList) : points (first ++ second) = points first ∪ points second := by
  refine Set.ext fun p ↦ ?_
  simp [points, or_and_right, exists_or]

theorem mem_points_ite {c : Prop} [Decidable c] : p ∈ points (if c then [r] else []) ↔ c ∧ p ∈ r.points := by
  split_ifs with hc <;> simp [points, hc]

theorem toInt_eq {v : ℤ} (hlower : -2 ^ 31 ≤ v) (hupper : v < 2 ^ 31) : toInt v = v := Int.bmod_eq_of_le hlower hupper

theorem proper_mk {stop : ℤ} (hlt : start < stop) (hfits : stop - start < 2 ^ 31) (hlower : -2 ^ 31 ≤ start)
    (hupper : stop < 2 ^ 31) : Proper ⟨start, stop, stop - start⟩ :=
  ⟨by dsimp only; omega, by dsimp only; omega, hfits, hlower, hupper⟩

theorem proper_make (hlower : -2 ^ 31 ≤ start) (hpos : 0 < size) (hfits : size < 2 ^ 31)
    (hupper : start + size < 2 ^ 31) : Proper (Range.make start size) := by
  have hend : toInt (start + size) = start + size := toInt_eq (by omega) hupper
  exact ⟨hend, hpos, hfits, hlower, hend.trans_lt hupper⟩

theorem points_make (hlower : -2 ^ 31 ≤ start) (hpos : 0 < size) (hupper : start + size < 2 ^ 31) :
    (Range.make start size).points = Set.Ico start (start + size) := by
  have hend : toInt (start + size) = start + size := toInt_eq (by omega) hupper
  rw [Range.points, Range.make, hend]

theorem if_lt_max (a b : ℤ) : (if b < a then a else b) = max a b := by
  split_ifs <;> omega

theorem if_lt_min (a b : ℤ) : (if a < b then a else b) = min a b := by
  split_ifs <;> omega

theorem make_eq {stop : ℤ} (hstop : toInt stop = stop) :
    Range.make start (stop - start) = ⟨start, stop, stop - start⟩ := by
  rw [Range.make, show start + (stop - start) = stop by omega, hstop]

theorem rangeIntersection_eq (hr : Proper r) (hother : Proper other) : r.rangeIntersection other =
      if max r.m_start other.m_start < min r.m_end other.m_end then
        some ⟨max r.m_start other.m_start, min r.m_end other.m_end,
          min r.m_end other.m_end - max r.m_start other.m_start⟩
      else none := by
  obtain ⟨hend, hpos, hfits, hlower, hupper⟩ := hr
  obtain ⟨hend', hpos', hfits', hlower', hupper'⟩ := hother
  simp only [Range.rangeIntersection, if_lt_max, if_lt_min]
  by_cases happart : other.m_end < r.m_start ∨ r.m_end < other.m_start
  · rw [if_pos happart, if_neg (by omega)]
  have hsize : toInt (min r.m_end other.m_end - max r.m_start other.m_start) =
      min r.m_end other.m_end - max r.m_start other.m_start := toInt_eq (by omega) (by omega)
  rw [if_neg happart, hsize]
  by_cases hinside : max r.m_start other.m_start < min r.m_end other.m_end
  · have hstop : toInt (min r.m_end other.m_end) = min r.m_end other.m_end := toInt_eq (by omega) (by omega)
    rw [if_pos hinside, if_pos (by omega), make_eq hstop]
  · rw [if_neg hinside, if_neg (by omega)]

/-- Ranges that touch are united, if all of their points fit. -/
theorem rangeUnion_eq (hr : Proper r) (hother : Proper other)
    (hfits : max r.m_start other.m_start ≤ min r.m_end other.m_end →
      max r.m_end other.m_end - min r.m_start other.m_start < 2 ^ 31) :
    r.rangeUnion other =
      if max r.m_start other.m_start ≤ min r.m_end other.m_end then
        some ⟨min r.m_start other.m_start, max r.m_end other.m_end,
          max r.m_end other.m_end - min r.m_start other.m_start⟩
      else none := by
  obtain ⟨hend, hpos, hsmall, hlower, hupper⟩ := hr
  obtain ⟨hend', hpos', hsmall', hlower', hupper'⟩ := hother
  simp only [Range.rangeUnion, if_lt_max, if_lt_min]
  by_cases happart : other.m_end < r.m_start ∨ r.m_end < other.m_start
  · rw [if_pos happart, if_neg (by omega)]
  have htouch : max r.m_start other.m_start ≤ min r.m_end other.m_end := by omega
  have hfits := hfits htouch
  have hsize : toInt (max r.m_end other.m_end - min r.m_start other.m_start) =
      max r.m_end other.m_end - min r.m_start other.m_start := toInt_eq (by omega) (by omega)
  have hstop : toInt (max r.m_end other.m_end) = max r.m_end other.m_end := toInt_eq (by omega) (by omega)
  rw [if_neg happart, hsize, if_pos (by omega), make_eq hstop, if_pos htouch]

end Points

/-! ## Deletion -/

section Deletion

variable {r old intersection : Range} {list deleted : RangeList} {p : ℤ}

variable {i : ℕ}

/-- An intersection has the common points. -/
theorem proper_intersection (hr : Proper r) (hold : Proper old) (h : r.rangeIntersection old = some intersection) :
    Proper intersection ∧ ∀ p, p ∈ intersection.points ↔ p ∈ old.points ∧ p ∈ r.points := by
  rw [rangeIntersection_eq hr hold] at h
  obtain ⟨hend, hpos, hfits, hlower, hupper⟩ := hr
  obtain ⟨hend', hpos', hfits', hlower', hupper'⟩ := hold
  split_ifs at h with hinside
  cases h
  refine ⟨proper_mk hinside (by omega) (by omega) (by omega), fun p ↦ ?_⟩
  simp only [mem_points_range]
  omega

theorem not_mem_of_rangeIntersection (hr : Proper r) (hold : Proper old) (h : r.rangeIntersection old = none)
    (hp : p ∈ old.points) : p ∉ r.points := by
  rw [rangeIntersection_eq hr hold] at h
  split_ifs at h with hinside
  simp only [mem_points_range] at hp ⊢
  omega

/-- What is put back, as a list. -/
theorem split_eq (old intersection : Range) (list : RangeList) : split old intersection list =
    ((if old.m_end ≠ intersection.m_end then
        [Range.make intersection.m_end (toInt (old.m_end - intersection.m_end))] else []) ++
      if old.m_start ≠ intersection.m_start then
        [Range.make old.m_start (toInt (intersection.m_start - old.m_start))] else []) ++ list := by
  rw [split]
  by_cases hsame : intersection = old
  · rw [hsame, if_neg (not_not.mpr rfl), if_neg (not_not.mpr rfl), if_neg (not_not.mpr rfl)]
    rfl
  · rw [if_pos hsame]
    split_ifs <;> rfl

section

variable (hr : Proper r) (hold : Proper old)
include hr hold

theorem left_piece (hleft : old.m_start < r.m_start) (hmeet : r.m_start < old.m_end) :
    Proper ⟨old.m_start, r.m_start, r.m_start - old.m_start⟩ ∧
      r.rangeIntersection ⟨old.m_start, r.m_start, r.m_start - old.m_start⟩ = none := by
  have hproper : Proper ⟨old.m_start, r.m_start, r.m_start - old.m_start⟩ := by
    obtain ⟨hend, hpos, hfits, hlower, hupper⟩ := hr
    obtain ⟨hend', hpos', hfits', hlower', hupper'⟩ := hold
    exact proper_mk hleft (by omega) hlower' (by omega)
  refine ⟨hproper, ?_⟩
  rw [rangeIntersection_eq hr hproper, if_neg (by dsimp only; omega)]

theorem right_piece (hright : r.m_end < old.m_end) (hmeet : old.m_start < r.m_end) :
    Proper ⟨r.m_end, old.m_end, old.m_end - r.m_end⟩ ∧
      r.rangeIntersection ⟨r.m_end, old.m_end, old.m_end - r.m_end⟩ = none := by
  have hproper : Proper ⟨r.m_end, old.m_end, old.m_end - r.m_end⟩ := by
    obtain ⟨hend, hpos, hfits, hlower, hupper⟩ := hr
    obtain ⟨hend', hpos', hfits', hlower', hupper'⟩ := hold
    exact proper_mk hright (by omega) (by omega) hupper'
  refine ⟨hproper, ?_⟩
  rw [rangeIntersection_eq hr hproper, if_neg (by dsimp only; omega)]

/-- What is left of a range: at most two ranges that the deleted one does not meet. -/
theorem exists_pieces (h : r.rangeIntersection old = some intersection) :
    ∃ pieces, (∀ list, split old intersection list = pieces ++ list) ∧ pieces.length ≤ 2 ∧
      (∀ piece ∈ pieces, Proper piece ∧ r.rangeIntersection piece = none) ∧
      ∀ p, p ∈ points pieces ↔ p ∈ old.points ∧ p ∉ r.points := by
  rw [rangeIntersection_eq hr hold] at h
  split_ifs at h with hinside
  cases h
  have hboundsR := hr
  have hboundsOld := hold
  obtain ⟨hend, hpos, hfits, hlower, hupper⟩ := hboundsR
  obtain ⟨hend', hpos', hfits', hlower', hupper'⟩ := hboundsOld
  have hright : Range.make (min r.m_end old.m_end) (toInt (old.m_end - min r.m_end old.m_end)) =
      ⟨min r.m_end old.m_end, old.m_end, old.m_end - min r.m_end old.m_end⟩ := by
    rw [toInt_eq (by omega) (by omega), make_eq (toInt_eq (by omega) hupper')]
  have hleft : Range.make old.m_start (toInt (max r.m_start old.m_start - old.m_start)) =
      ⟨old.m_start, max r.m_start old.m_start, max r.m_start old.m_start - old.m_start⟩ := by
    rw [toInt_eq (by omega) (by omega), make_eq (toInt_eq (by omega) (by omega))]
  have hsplit (list : RangeList) := split_eq old ⟨max r.m_start old.m_start, min r.m_end old.m_end,
    min r.m_end old.m_end - max r.m_start old.m_start⟩ list
  dsimp only at hsplit
  rw [hright, hleft] at hsplit
  refine ⟨_, hsplit, ?_, fun piece hpiece ↦ ?_, fun p ↦ ?_⟩
  · split_ifs <;> simp
  · obtain hpiece | hpiece := mem_append.mp hpiece
    · split_ifs at hpiece with hmin
      · obtain rfl := List.mem_singleton.mp hpiece
        have hmin : min r.m_end old.m_end = r.m_end := by omega
        simp only [hmin]
        exact right_piece hr hold (by omega) (by omega)
      · cases hpiece
    · split_ifs at hpiece with hmax
      · obtain rfl := List.mem_singleton.mp hpiece
        have hmax : max r.m_start old.m_start = r.m_start := by omega
        simp only [hmax]
        exact left_piece hr hold (by omega) (by omega)
      · cases hpiece
  · rw [points_append, Set.mem_union, mem_points_ite, mem_points_ite]
    simp only [mem_points_range]
    omega

end

/-- A deletion while the list is walked: no range before the place meets the one that is deleted. -/
structure Deleting (r : Range) (list deleted : RangeList) (state : ℕ × RangeList × RangeList) : Prop where
  proper : ∀ old ∈ state.2.1, Proper old
  deleted_proper : ∀ old ∈ state.2.2, Proper old
  clear : ∀ old ∈ state.2.1.take state.1, r.rangeIntersection old = none
  kept : ∀ p, p ∉ r.points → (p ∈ points state.2.1 ↔ p ∈ points list) ∧ (p ∈ points state.2.2 ↔ p ∈ points deleted)
  moved : ∀ p, p ∈ r.points → (p ∈ points state.2.1 ∨ p ∈ points state.2.2 ↔ p ∈ points list ∨ p ∈ points deleted)

/-- Three times the ranges that the deleted one meets, and the ranges that are still to be walked. -/
def delRangeVariant (r : Range) (state : ℕ × RangeList × RangeList) : ℕ :=
  3 * state.2.1.countP (fun old ↦ (r.rangeIntersection old).isSome) + (state.2.1.length - state.1)

theorem addRange_proper (hproper : Proper intersection) :
    RangeList.addRange deleted intersection = deleted ++ [intersection] := by
  have hsize := hproper.pos
  rw [RangeList.addRange, if_pos (by omega)]

theorem exists_around (h : list[i]? = some old) :
    ∃ before after, list = before ++ old :: after ∧ before.length = i := by
  obtain ⟨hlt, rfl⟩ := List.getElem?_eq_some_iff.mp h
  refine ⟨list.take i, list.drop (i + 1), ?_, List.length_take_of_le hlt.le⟩
  rw [List.cons_getElem_drop_succ, List.take_append_drop]

theorem Deleting.start (hlist : ∀ old ∈ list, Proper old) (hdeleted : ∀ old ∈ deleted, Proper old) :
    Deleting r list deleted (0, list, deleted) :=
  ⟨hlist, hdeleted, fun _ hmem ↦ absurd hmem List.not_mem_nil, fun _ _ ↦ ⟨Iff.rfl, Iff.rfl⟩, fun _ _ ↦ Iff.rfl⟩

/-- A range that the deleted one does not meet is passed over. -/
theorem Deleting.pass {here there : RangeList} (h : Deleting r list deleted (i, here, there))
    (hold : here[i]? = some old) (hmeet : r.rangeIntersection old = none) :
    Deleting r list deleted (i + 1, here, there) ∧
      delRangeVariant r (i + 1, here, there) < delRangeVariant r (i, here, there) := by
  refine ⟨⟨h.proper, h.deleted_proper, fun other hother ↦ ?_, h.kept, h.moved⟩, ?_⟩
  · dsimp only at hother
    rw [List.take_add_one, hold] at hother
    obtain hother | hother := mem_append.mp hother
    · exact h.clear other hother
    · obtain rfl := List.mem_singleton.mp hother
      exact hmeet
  · obtain ⟨hlt, -⟩ := List.getElem?_eq_some_iff.mp hold
    dsimp only [delRangeVariant]
    omega

/-- A range that the deleted one meets is replaced by what is left of it, at the front. -/
theorem Deleting.cut {here there : RangeList} (hr : Proper r) (h : Deleting r list deleted (i, here, there))
    (hold : here[i]? = some old) (hmeet : r.rangeIntersection old = some intersection) :
    Deleting r list deleted
        (i, split old intersection (here.eraseIdx i), RangeList.addRange there intersection) ∧
      delRangeVariant r
          (i, split old intersection (here.eraseIdx i), RangeList.addRange there intersection) <
        delRangeVariant r (i, here, there) := by
  obtain ⟨before, after, rfl, rfl⟩ := exists_around hold
  have hproper : Proper old := h.proper old (List.mem_append_right _ List.mem_cons_self)
  obtain ⟨hintersection, hcommon⟩ := proper_intersection hr hproper hmeet
  obtain ⟨pieces, hsplit, hshort, hpieces, hleft⟩ := exists_pieces hr hproper hmeet
  have herase : (before ++ old :: after).eraseIdx before.length = before ++ after := by
    rw [List.eraseIdx_append_of_length_le le_rfl, Nat.sub_self, List.eraseIdx_cons_zero]
  have hclear : ∀ other ∈ before, r.rangeIntersection other = none := by
    have hclear := h.clear
    rwa [List.take_left] at hclear
  rw [hsplit, herase, addRange_proper hintersection]
  refine ⟨⟨fun other hother ↦ ?_, fun other hother ↦ ?_, fun other hother ↦ ?_, fun p hp ↦ ?_, fun p hp ↦ ?_⟩, ?_⟩
  · obtain hother | hother := mem_append.mp hother
    · exact (hpieces other hother).1
    · refine h.proper other ?_
      obtain hother | hother := mem_append.mp hother
      · exact List.mem_append_left _ hother
      · exact List.mem_append_right _ (List.mem_cons_of_mem old hother)
  · obtain hother | hother := mem_append.mp hother
    · exact h.deleted_proper other hother
    · obtain rfl := List.mem_singleton.mp hother
      exact hintersection
  · have hle : before.length ≤ (pieces ++ before).length := by
      rw [List.length_append]
      omega
    dsimp only at hother
    rw [← List.append_assoc, List.take_append_of_le_length hle] at hother
    obtain hother | hother := mem_append.mp (List.mem_of_mem_take hother)
    · exact (hpieces other hother).2
    · exact hclear other hother
  · have hkept := h.kept p hp
    simp only [points_append, points_cons, points_nil, Set.mem_union, hleft, hcommon] at hkept ⊢
    tauto
  · have hmoved := h.moved p hp
    simp only [points_append, points_cons, points_nil, Set.mem_union, hleft, hcommon] at hmoved ⊢
    tauto
  · have hnone : pieces.countP (fun old ↦ (r.rangeIntersection old).isSome) = 0 := by
      refine List.countP_eq_zero.mpr fun piece hpiece ↦ ?_
      rw [(hpieces piece hpiece).2]
      exact Bool.false_ne_true
    simp only [delRangeVariant, List.countP_append, List.countP_cons, List.length_append, length_cons, hnone,
      hmeet, Option.isSome_some, if_true]
    omega

/-- The points of a set went from a list to the deleted ones. -/
structure Deletes (removed : Set ℤ) (list deleted list' deleted' : RangeList) : Prop where
  proper : ∀ old ∈ list', Proper old
  deleted_proper : ∀ old ∈ deleted', Proper old
  list_eq : points list' = points list \ removed
  deleted_eq : points deleted' = points deleted ∪ points list ∩ removed

/-- At the end of the walk nothing in the list meets the deleted range. -/
theorem Deleting.deletes {list' deleted' : RangeList} (hr : Proper r)
    (h : Deleting r list deleted (i, list', deleted')) (hend : list'[i]? = none) :
    Deletes r.points list deleted list' deleted' := by
  have hall : list'.take i = list' := List.take_of_length_le (List.getElem?_eq_none_iff.mp hend)
  have hclear : ∀ p, p ∈ points list' → p ∉ r.points := by
    rintro p ⟨old, hmem, hp⟩
    refine not_mem_of_rangeIntersection hr (h.proper old hmem) (h.clear old ?_) hp
    dsimp only
    rwa [hall]
  refine ⟨h.proper, h.deleted_proper, Set.ext fun p ↦ ?_, Set.ext fun p ↦ ?_⟩
  · have hkept := h.kept p
    have hout := hclear p
    simp only [Set.mem_sdiff]
    tauto
  · have hkept := h.kept p
    have hmoved := h.moved p
    have hout := hclear p
    simp only [Set.mem_union, Set.mem_inter_iff]
    tauto

theorem Deleting.goes {value next : ℕ × RangeList × RangeList} (hr : Proper r) (h : Deleting r list deleted value)
    (hgoes : Walk.Goes (delRangeBody r) value next) :
    Deleting r list deleted next ∧ delRangeVariant r next < delRangeVariant r value := by
  obtain ⟨i, here, there⟩ := value
  simp only [Walk.Goes, delRangeBody] at hgoes
  cases hold : here[i]? with
  | none => simp only [hold, reduceCtorEq] at hgoes
  | some old =>
    cases hmeet : r.rangeIntersection old with
    | none =>
      simp only [hold, hmeet, Sum.inl.injEq] at hgoes
      subst hgoes
      exact h.pass hold hmeet
    | some intersection =>
      simp only [hold, hmeet, Sum.inl.injEq] at hgoes
      subst hgoes
      exact h.cut hr hold hmeet

theorem Deleting.done {value : ℕ × RangeList × RangeList} {lists : RangeList × RangeList} (hr : Proper r)
    (h : Deleting r list deleted value) (hdone : delRangeBody r value = .inr lists) :
    Deletes r.points list deleted lists.1 lists.2 := by
  obtain ⟨i, here, there⟩ := value
  simp only [delRangeBody] at hdone
  cases hold : here[i]? with
  | none =>
    simp only [hold, Sum.inr.injEq] at hdone
    subst hdone
    exact h.deletes hr hold
  | some old => cases hmeet : r.rangeIntersection old <;> simp only [hold, hmeet, reduceCtorEq] at hdone

/-- A deletion ends, with exactly the points of the range deleted. -/
theorem delRange_spec (hr : Proper r) (hlist : ∀ old ∈ list, Proper old) (hdeleted : ∀ old ∈ deleted, Proper old) :
    ∃ list' deleted', Walk.Returns (fun fuel ↦ RangeList.delRange fuel r list deleted) (list', deleted') ∧
      Deletes r.points list deleted list' deleted' := by
  have hsize := hr.pos
  obtain ⟨⟨list', deleted'⟩, hloop, hdeletes⟩ := Walk.exists_loop_of_variant (Deleting r list deleted)
    (fun lists ↦ Deletes r.points list deleted lists.1 lists.2) (delRangeVariant r)
    (fun _ _ hinv hgoes ↦ hinv.goes hr hgoes) (fun _ _ hinv hdone ↦ hinv.done hr hdone)
    (Deleting.start hlist hdeleted) (Nat.lt_succ_self _)
  obtain ⟨bound, hbound⟩ := Walk.returns_loop hloop
  refine ⟨list', deleted', ⟨bound, fun fuel hfuel ↦ ?_⟩, hdeletes⟩
  dsimp only [RangeList.delRange]
  rw [if_neg (by omega)]
  exact hbound fuel hfuel

theorem Deletes.trans {removed more : Set ℤ} {middle list' moved deleted' : RangeList}
    (h : Deletes removed list deleted middle moved) (hmore : Deletes more middle moved list' deleted') :
    Deletes (removed ∪ more) list deleted list' deleted' := by
  refine ⟨hmore.proper, hmore.deleted_proper, ?_, ?_⟩
  · rw [hmore.list_eq, h.list_eq, Set.sdiff_sdiff]
  · rw [hmore.deleted_eq, h.deleted_eq, h.list_eq]
    refine Set.ext fun p ↦ ?_
    simp only [Set.mem_union, Set.mem_inter_iff, Set.mem_sdiff]
    tauto

/-- A deletion of many ranges. -/
theorem delRanges_spec {rl : RangeList} (hrl : ∀ r ∈ rl, Proper r) (hlist : ∀ old ∈ list, Proper old)
    (hdeleted : ∀ old ∈ deleted, Proper old) :
    ∃ list' deleted', Walk.Returns (fun fuel ↦ RangeList.delRanges fuel rl list deleted) (list', deleted') ∧
      Deletes (points rl) list deleted list' deleted' := by
  induction rl generalizing list deleted with
  | nil =>
    refine ⟨list, deleted, Walk.returns_some _, hlist, hdeleted, ?_, ?_⟩
    · rw [points_nil, Set.sdiff_empty]
    · rw [points_nil, Set.inter_empty, Set.union_empty]
  | cons r rl ih =>
    obtain ⟨middle, moved, hreturns, hdeletes⟩ := delRange_spec (hrl r List.mem_cons_self) hlist hdeleted
    obtain ⟨list', deleted', hrest, hmore⟩ :=
      ih (fun other hmem ↦ hrl other (List.mem_cons_of_mem r hmem)) hdeletes.proper hdeletes.deleted_proper
    refine ⟨list', deleted', hreturns.bind hrest, ?_⟩
    rw [points_cons]
    exact hdeletes.trans hmore

end Deletion

/-! ## Merging -/

/-- No points one after the other are more than an `int` can count. -/
def NoLongRun (S : Set ℤ) : Prop := ∀ start stop, Set.Ico start stop ⊆ S → stop - start < 2 ^ 31

section Merging

variable {a b : Range} {list list' : RangeList}

theorem NoLongRun.mono {S T : Set ℤ} (h : NoLongRun T) (hsubset : S ⊆ T) : NoLongRun S :=
  fun start stop hrun ↦ h start stop (hrun.trans hsubset)

/-- Two ranges of a list are united if they touch. -/
theorem rangeUnion_cases (ha : Proper a) (hb : Proper b) (hrun : NoLongRun (a.points ∪ b.points)) :
    (∃ temp, a.rangeUnion b = some temp ∧ Proper temp ∧ temp.points = a.points ∪ b.points) ∨
      (a.rangeUnion b = none ∧ Separate a b) := by
  have hfits : max a.m_start b.m_start ≤ min a.m_end b.m_end →
      max a.m_end b.m_end - min a.m_start b.m_start < 2 ^ 31 := by
    intro htouch
    refine hrun _ _ fun p hp ↦ ?_
    simp only [Set.mem_Ico, Set.mem_union, mem_points_range] at hp ⊢
    omega
  have hunion := rangeUnion_eq ha hb hfits
  obtain ⟨hend, hpos, hsmall, hlower, hupper⟩ := ha
  obtain ⟨hend', hpos', hsmall', hlower', hupper'⟩ := hb
  by_cases htouch : max a.m_start b.m_start ≤ min a.m_end b.m_end
  · rw [if_pos htouch] at hunion
    refine .inl ⟨_, hunion, proper_mk (by omega) (hfits htouch) (by omega) (by omega), Set.ext fun p ↦ ?_⟩
    simp only [Set.mem_union, mem_points_range]
    omega
  · rw [if_neg htouch] at hunion
    refine .inr ⟨hunion, ?_⟩
    rw [Separate]
    omega

theorem length_uniteFirst {temp : Range} {rest : RangeList} (h : uniteFirst a list = some (temp, rest)) :
    rest.length + 1 = list.length := by
  induction list generalizing rest with
  | nil => cases h
  | cons b list ih =>
    rw [uniteFirst] at h
    cases hunion : a.rangeUnion b with
    | some united =>
      rw [hunion] at h
      obtain ⟨-, rfl⟩ := Prod.mk.inj (Option.some.inj h)
      rfl
    | none =>
      rw [hunion] at h
      obtain ⟨⟨united, others⟩, hunite, hpair⟩ := Option.map_eq_some_iff.mp h
      cases hpair
      rw [length_cons, ih hunite, length_cons]

/-- A change makes the list shorter. -/
theorem length_mergeOnce (h : mergeOnce list = some list') : list'.length + 1 = list.length := by
  induction list generalizing list' with
  | nil => cases h
  | cons a list ih =>
    rw [mergeOnce] at h
    cases hunite : uniteFirst a list with
    | some found =>
      rw [hunite] at h
      cases h
      rw [length_cons, length_uniteFirst hunite, length_cons]
    | none =>
      rw [hunite] at h
      obtain ⟨others, honce, rfl⟩ := Option.map_eq_some_iff.mp h
      rw [length_cons, ih honce, length_cons]

/-- The rounds of a merge are enough for every list: the loop has come to its end. -/
theorem mergeOnce_mergeRounds {rounds : ℕ} (hrounds : list.length ≤ rounds) :
    mergeOnce (mergeRounds rounds list) = none := by
  induction rounds generalizing list with
  | zero =>
    obtain rfl := List.length_eq_zero_iff.mp (Nat.le_zero.mp hrounds)
    rfl
  | succ rounds ih =>
    rw [mergeRounds]
    cases honce : mergeOnce list with
    | some list' =>
      have hlength := length_mergeOnce honce
      exact ih (by omega)
    | none => exact honce

/-- Two ranges of a list were united. -/
structure Unites (list list' : RangeList) : Prop where
  proper : ∀ r ∈ list', Proper r
  points_eq : points list' = points list

theorem uniteFirst_cases (ha : Proper a) (hlist : ∀ r ∈ list, Proper r) (hrun : NoLongRun (points (a :: list))) :
    (∃ temp rest, uniteFirst a list = some (temp, rest) ∧ Unites (a :: list) (temp :: rest)) ∨
      (uniteFirst a list = none ∧ ∀ b ∈ list, Separate a b) := by
  induction list with
  | nil => exact .inr ⟨rfl, fun _ hmem ↦ absurd hmem List.not_mem_nil⟩
  | cons b list ih =>
    have hb : Proper b := hlist b List.mem_cons_self
    have hrest : ∀ r ∈ list, Proper r := fun r hmem ↦ hlist r (List.mem_cons_of_mem b hmem)
    simp only [points_cons] at hrun ih
    obtain ⟨temp, hunion, htemp, hpoints⟩ | ⟨hunion, hseparate⟩ :=
      rangeUnion_cases ha hb (hrun.mono (Set.union_subset_union_right _ Set.subset_union_left))
    · refine .inl ⟨temp, list, ?_, ?_, ?_⟩
      · simp only [uniteFirst, hunion]
      · exact forall_mem_cons.mpr ⟨htemp, hrest⟩
      · rw [points_cons, points_cons, points_cons, hpoints, Set.union_assoc]
    · obtain ⟨temp, rest, hunite, hunites⟩ | ⟨hunite, hothers⟩ :=
        ih hrest (hrun.mono (Set.union_subset_union_right _ Set.subset_union_right))
      · have hrests := forall_mem_cons.mp hunites.proper
        have hpoints := hunites.points_eq
        rw [points_cons, points_cons] at hpoints
        refine .inl ⟨temp, b :: rest, ?_, ?_, ?_⟩
        · simp only [uniteFirst, hunion, hunite, Option.map_some]
        · exact forall_mem_cons.mpr ⟨hrests.1, forall_mem_cons.mpr ⟨hb, hrests.2⟩⟩
        · rw [points_cons, points_cons, points_cons, points_cons, Set.union_left_comm, hpoints, Set.union_left_comm]
      · refine .inr ⟨?_, forall_mem_cons.mpr ⟨hseparate, hothers⟩⟩
        simp only [uniteFirst, hunion, hunite, Option.map_none]

theorem mergeOnce_cases (hlist : ∀ r ∈ list, Proper r) (hrun : NoLongRun (points list)) :
    (∃ list', mergeOnce list = some list' ∧ Unites list list') ∨
      (mergeOnce list = none ∧ list.Pairwise Separate) := by
  induction list with
  | nil => exact .inr ⟨rfl, .nil⟩
  | cons a list ih =>
    have ha : Proper a := hlist a List.mem_cons_self
    have hrest : ∀ r ∈ list, Proper r := fun r hmem ↦ hlist r (List.mem_cons_of_mem a hmem)
    obtain ⟨temp, rest, hunite, hunites⟩ | ⟨hunite, hseparate⟩ := uniteFirst_cases ha hrest hrun
    · refine .inl ⟨temp :: rest, ?_, hunites⟩
      simp only [mergeOnce, hunite]
    · rw [points_cons] at hrun
      obtain ⟨list', honce, hunites⟩ | ⟨honce, hpairs⟩ := ih hrest (hrun.mono Set.subset_union_right)
      · refine .inl ⟨a :: list', ?_, ?_, ?_⟩
        · simp only [mergeOnce, hunite, honce, Option.map_some]
        · exact forall_mem_cons.mpr ⟨ha, hunites.proper⟩
        · rw [points_cons, points_cons, hunites.points_eq]
      · refine .inr ⟨?_, List.pairwise_cons.mpr ⟨hseparate, hpairs⟩⟩
        simp only [mergeOnce, hunite, honce, Option.map_none]

/-- The ranges of a merged list: another run changes nothing. -/
structure Merges (list list' : RangeList) : Prop where
  last : mergeOnce list' = none
  proper : ∀ r ∈ list', Proper r
  points_eq : points list' = points list
  separate : list'.Pairwise Separate

theorem merges_mergeRounds {rounds : ℕ} (hlist : ∀ r ∈ list, Proper r) (hrun : NoLongRun (points list))
    (hrounds : list.length ≤ rounds) : Merges list (mergeRounds rounds list) := by
  induction rounds generalizing list with
  | zero =>
    obtain rfl := List.length_eq_zero_iff.mp (Nat.le_zero.mp hrounds)
    exact ⟨rfl, hlist, rfl, .nil⟩
  | succ rounds ih =>
    have hlast := mergeOnce_mergeRounds hrounds
    obtain ⟨list', honce, hunites⟩ | ⟨honce, hpairs⟩ := mergeOnce_cases hlist hrun
    · have hlength := length_mergeOnce honce
      have hmerges : Merges list' (mergeRounds rounds list') :=
        ih hunites.proper (by rwa [hunites.points_eq]) (by omega)
      simp only [mergeRounds, honce] at hlast ⊢
      exact ⟨hlast, hmerges.proper, hmerges.points_eq.trans hunites.points_eq, hmerges.separate⟩
    · simp only [mergeRounds, honce]
      exact ⟨honce, hlist, rfl, hpairs⟩

/-- A merge ends with the same points, in ranges that do not touch. -/
theorem merge_spec (hlist : ∀ r ∈ list, Proper r) (hrun : NoLongRun (points list)) :
    Merges list (RangeList.merge list) :=
  merges_mergeRounds hlist hrun le_rfl

end Merging

/-! ## Lists that the operations build -/

section Built

variable {r : Range} {list rl : RangeList}

theorem points_addRange_of_proper (hr : Proper r) : points (RangeList.addRange list r) = points list ∪ r.points := by
  rw [addRange_proper hr, points_append, points_cons, points_nil, Set.union_empty]

theorem forall_addRange (hr : Proper r) (hlist : ∀ old ∈ list, Proper old) :
    ∀ old ∈ RangeList.addRange list r, Proper old := by
  rw [addRange_proper hr]
  exact List.forall_mem_append.mpr ⟨hlist, List.forall_mem_singleton.mpr hr⟩

theorem forall_addRanges (hrl : ∀ r ∈ rl, Proper r) (hlist : ∀ old ∈ list, Proper old) :
    ∀ old ∈ RangeList.addRanges list rl, Proper old := by
  induction rl generalizing list with
  | nil => exact hlist
  | cons r rl ih =>
    obtain ⟨hr, hrl⟩ := forall_mem_cons.mp hrl
    exact ih hrl (forall_addRange hr hlist)

/-- The lists after any operations on ranges that are not empty, if no merge makes a range that is too long. -/
inductive Built : RangeList → Prop
  | clear : Built []
  | addRange {list : RangeList} {r : Range} (hlist : Built list) (hr : Proper r) : Built (RangeList.addRange list r)
  | addRanges {list rl : RangeList} (hlist : Built list) (hrl : Built rl) : Built (RangeList.addRanges list rl)
  | delRange {r : Range} {list deleted list' deleted' : RangeList} (hr : Proper r) (hlist : Built list)
      (hdeleted : Built deleted)
      (h : Walk.Returns (fun fuel ↦ RangeList.delRange fuel r list deleted) (list', deleted')) : Built list'
  | delRange_deleted {r : Range} {list deleted list' deleted' : RangeList} (hr : Proper r) (hlist : Built list)
      (hdeleted : Built deleted)
      (h : Walk.Returns (fun fuel ↦ RangeList.delRange fuel r list deleted) (list', deleted')) : Built deleted'
  | delRanges {rl list deleted list' deleted' : RangeList} (hrl : Built rl) (hlist : Built list)
      (hdeleted : Built deleted)
      (h : Walk.Returns (fun fuel ↦ RangeList.delRanges fuel rl list deleted) (list', deleted')) : Built list'
  | delRanges_deleted {rl list deleted list' deleted' : RangeList} (hrl : Built rl) (hlist : Built list)
      (hdeleted : Built deleted)
      (h : Walk.Returns (fun fuel ↦ RangeList.delRanges fuel rl list deleted) (list', deleted')) : Built deleted'
  | merge {list : RangeList} (hlist : Built list) (hrun : NoLongRun (points list)) : Built (RangeList.merge list)

theorem deletes_of_returns {removed : Set ℤ} {list deleted list' deleted' : RangeList}
    {run : ℕ → Option (RangeList × RangeList)} (h : Walk.Returns run (list', deleted'))
    (hspec : ∃ list' deleted', Walk.Returns run (list', deleted') ∧ Deletes removed list deleted list' deleted') :
    Deletes removed list deleted list' deleted' := by
  obtain ⟨_, _, hreturns, hdeletes⟩ := hspec
  obtain ⟨rfl, rfl⟩ := Prod.mk.inj (hreturns.unique h)
  exact hdeletes

theorem Built.proper (h : Built list) : ∀ r ∈ list, Proper r := by
  induction h with
  | clear => exact fun _ hmem ↦ absurd hmem List.not_mem_nil
  | addRange _ hr ih => exact forall_addRange hr ih
  | addRanges _ _ ih ihrl => exact forall_addRanges ihrl ih
  | delRange hr _ _ h ih ihdeleted => exact (deletes_of_returns h (delRange_spec hr ih ihdeleted)).proper
  | delRange_deleted hr _ _ h ih ihdeleted =>
    exact (deletes_of_returns h (delRange_spec hr ih ihdeleted)).deleted_proper
  | delRanges _ _ _ h ihrl ih ihdeleted => exact (deletes_of_returns h (delRanges_spec ihrl ih ihdeleted)).proper
  | delRanges_deleted _ _ _ h ihrl ih ihdeleted =>
    exact (deletes_of_returns h (delRanges_spec ihrl ih ihdeleted)).deleted_proper
  | merge _ hrun ih => exact (merge_spec ih hrun).proper

end Built

end FdeEmugl.Ranges

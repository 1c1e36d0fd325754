import FdeEmugl.Base.Stream
import FdeEmugl.Library.Coverage
import Mathlib.Data.Int.Interval

/-!
# GapTracker

The free ranges of a snapshot file. `GenericGapTracker` keeps them by start and, for each size, in
the order in which they got that size; here they are one list in that order, from which both maps
are read off. Sizes are of type `int` and wrap around when neighbours are joined. What counts
about the tracker is how often its gaps cover each byte of the file: never more than what was added
and not allocated since, and exactly that as long as no joined size leaves the range of an
`int`.
-/

namespace FdeEmugl.Snapshot

open Coverage FdeEmugl.Stream

/-- The conversion of a sum to `int`. -/
def toInt (value : ℤ) : ℤ := value.bmod (2 ^ 32)

variable {value : ℤ}

theorem toInt_bounds (value : ℤ) : -2 ^ 31 ≤ toInt value ∧ toInt value < 2 ^ 31 := by
  have hlow := Int.le_bmod (x := value) (m := 2 ^ 32) (by decide)
  have hhigh := Int.bmod_lt (x := value) (m := 2 ^ 32) (by decide)
  unfold toInt
  omega

theorem toInt_eq (hlow : -2 ^ 31 ≤ value) (hhigh : value < 2 ^ 31) : toInt value = value := by
  unfold toInt
  apply Int.bmod_eq_of_le <;> omega

theorem toInt_le (h : -2 ^ 31 ≤ value) : toInt value ≤ value := by
  unfold toInt
  rw [Int.bmod_def]
  split_ifs <;> omega

/-- A sum of two positive sizes that is too large becomes negative. -/
theorem toInt_neg (hlow : 2 ^ 31 ≤ value) (hhigh : value < 2 ^ 32) : toInt value < 0 := by
  unfold toInt
  rw [Int.bmod_def, Int.emod_eq_of_lt (by omega) (by omega)]
  split_ifs <;> omega

/-! ## The maps -/

/-- Of the gaps that will do, the best one; of equally good ones the first. -/
def pick (suits : Range → Bool) (better : Range → Range → Bool) : List Range → Option Range
  | [] => none
  | gap :: gaps =>
    match pick suits better gaps with
    | none => if suits gap then some gap else none
    | some other => if suits gap && better gap other then some gap else some other

/-- `mBySize.lower_bound`, and the first of the gaps of that size. -/
def bestFit (size : ℕ) : List Range → Option Range :=
  pick (fun gap ↦ size ≤ gap.size) fun gap other ↦ gap.size ≤ other.size

/-- The entry of `mByStart` right before a position. -/
def previous (start : ℕ) : List Range → Option Range :=
  pick (fun gap ↦ gap.start < start) fun gap other ↦ other.start ≤ gap.start

/-- The entry of `mByStart` right after a position. -/
def following (start : ℕ) : List Range → Option Range :=
  pick (fun gap ↦ start < gap.start) fun gap other ↦ gap.start ≤ other.start

theorem pick_spec {suits : Range → Bool} {better : Range → Range → Bool} {gaps : List Range}
    {gap : Range} (h : pick suits better gaps = some gap) : gap ∈ gaps ∧ suits gap = true := by
  induction gaps generalizing gap with
  | nil => cases h
  | cons first gaps ih =>
    simp only [pick] at h
    cases hrest : pick suits better gaps with
    | none =>
      rw [hrest] at h
      obtain ⟨hsuits, hsome⟩ := Option.ite_none_right_eq_some.mp h
      cases hsome
      exact ⟨.head gaps, hsuits⟩
    | some other =>
      simp only [hrest] at h
      split_ifs at h with hfirst
      · cases h
        exact ⟨.head gaps, (Bool.and_eq_true_iff.mp hfirst).1⟩
      · cases h
        exact ⟨.tail first (ih hrest).1, (ih hrest).2⟩

/-! ## `GenericGapTracker` -/

namespace GenericGapTracker

def allocate (size : ℕ) (gaps : List Range) : Option ℕ × List Range :=
  match bestFit size gaps with
  | none => (none, gaps)
  | some gap =>
    (some gap.start, gaps.erase gap ++
      if gap.size > size then [⟨gap.start + size, gap.size - size⟩] else [])

/-- The previous gap is taken in if it ends where the new one begins. -/
def joinPrevious (gap : Range) (gaps : List Range) : Range × List Range :=
  match previous gap.start gaps with
  | none => (gap, gaps)
  | some prev =>
    if prev.start + prev.size = gap.start then
      (⟨prev.start, toInt (gap.size + prev.size)⟩, gaps.erase prev)
    else (gap, gaps)

/-- The next gap is taken in if it begins where the new one ends. -/
def joinFollowing (gap : Range) (gaps : List Range) : Range × List Range :=
  match following gap.start gaps with
  | none => (gap, gaps)
  | some next =>
    if gap.start + gap.size = next.start then
      (⟨gap.start, toInt (gap.size + next.size)⟩, gaps.erase next)
    else (gap, gaps)

def addLocked (gap : Range) (gaps : List Range) : List Range :=
  let (joined, rest) := joinPrevious gap gaps
  let (joined, rest) := joinFollowing joined rest
  rest ++ [joined]

def add (start : ℕ) (size : ℤ) (gaps : List Range) : List Range :=
  if size ≤ 0 then gaps else addLocked ⟨start, size⟩ gaps

/-- The sizes, each as often as there are gaps of it, are added up modulo 2^64; the sum of the sizes
of a file's gaps does not come near that. -/
def wastedSpace (gaps : List Range) : ℤ := (gaps.map Range.size).sum

end GenericGapTracker

open GenericGapTracker

/-- The values of an `int`. -/
def IsInt (value : ℤ) : Prop := -2 ^ 31 ≤ value ∧ value < 2 ^ 31

def SizesAreInts (gaps : List Range) : Prop := ∀ gap ∈ gaps, IsInt gap.size

/-- Every gap has some bytes. -/
def SizesArePositive (gaps : List Range) : Prop := ∀ gap ∈ gaps, 0 < gap.size

section Cover

variable {gap : Range} {gaps : List Range}

variable {rest : List Range}

/-- What is allocated is no longer in the gaps, and everything else is. -/
theorem cover_allocate {size pos : ℕ} (h : GenericGapTracker.allocate size gaps = (some pos, rest))
    (point : ℕ) : cover rest point + (Range.mk pos size).covers point = cover gaps point := by
  unfold GenericGapTracker.allocate at h
  cases hfit : bestFit size gaps with
  | none =>
    rw [hfit] at h
    cases h
  | some gap =>
    obtain ⟨hmem, hsuits⟩ := pick_spec hfit
    have hsize : (size : ℤ) ≤ gap.size := of_decide_eq_true hsuits
    simp only [hfit, Prod.mk.injEq, Option.some.injEq] at h
    obtain ⟨rfl, rfl⟩ := h
    have herase := cover_erase hmem point
    have hleft : 0 ≤ gap.size - size := by omega
    have hsplit := Range.covers_add gap.start size hleft point
    rw [show (size : ℤ) + (gap.size - size) = gap.size by omega] at hsplit
    rw [show (Range.mk gap.start gap.size) = gap from rfl] at hsplit
    rw [cover_append]
    split_ifs with hmore
    · rw [cover_cons, cover_nil]
      omega
    · rw [cover_nil]
      have hzero : (Range.mk (gap.start + size) (gap.size - size)).size ≤ 0 := by
        simp only
        omega
      have hnone := Range.covers_of_size_nonpos hzero point
      omega

theorem allocate_none {size : ℕ} (h : GenericGapTracker.allocate size gaps = (none, rest)) : rest = gaps := by
  unfold GenericGapTracker.allocate at h
  cases hfit : bestFit size gaps with
  | none =>
    rw [hfit] at h
    exact (congrArg Prod.snd h).symm
  | some gap =>
    rw [hfit] at h
    cases h

theorem forall_allocate {size pos : ℕ} {property : Range → Prop}
    (h : GenericGapTracker.allocate size gaps = (some pos, rest)) (hgaps : ∀ gap ∈ gaps, property gap)
    (hrest : ∀ gap ∈ gaps, gap.size > size → property ⟨gap.start + size, gap.size - size⟩) :
    ∀ gap ∈ rest, property gap := by
  unfold GenericGapTracker.allocate at h
  cases hfit : bestFit size gaps with
  | none =>
    rw [hfit] at h
    cases h
  | some found =>
    simp only [hfit, Prod.mk.injEq] at h
    obtain ⟨_, rfl⟩ := h
    intro gap hgap
    obtain hgap | hgap := List.mem_append.mp hgap
    · exact hgaps gap (List.mem_of_mem_erase hgap)
    · split_ifs at hgap with hmore
      · obtain rfl := List.mem_singleton.mp hgap
        exact hrest found (pick_spec hfit).1 hmore
      · cases hgap

/-- Two adjacent ranges, the first one not empty, under the sum of their sizes as an `int`. -/
theorem covers_toInt (start : ℕ) {first second : ℤ} (hfirst : 0 < first) (hint : first < 2 ^ 31)
    (hlow : -2 ^ 31 ≤ second) (hhigh : second < 2 ^ 31) (point : ℕ) :
    (Range.mk start (toInt (first + second))).covers point ≤
      (Range.mk start first).covers point + (Range.mk (start + first.toNat) second).covers point := by
  have hnat : ((first.toNat : ℕ) : ℤ) = first := Int.toNat_of_nonneg hfirst.le
  by_cases hsum : first + second < 2 ^ 31
  · rw [toInt_eq (by omega) hsum]
    by_cases hsecond : 0 ≤ second
    · have hsplit := Range.covers_add start first.toNat hsecond point
      rw [hnat] at hsplit
      exact hsplit.le
    · have hmono := Range.covers_mono start (show first + second ≤ first by omega) point
      omega
  · -- the sum has become negative, and its range covers nothing
    have hneg := toInt_neg (show 2 ^ 31 ≤ first + second by omega) (by omega)
    rw [Range.covers_of_size_nonpos (by simp only; omega)]
    exact Nat.zero_le _

theorem covers_toInt_eq (start : ℕ) {first second : ℤ} (hfirst : 0 < first) (hsecond : 0 ≤ second)
    (hsum : first + second < 2 ^ 31) (point : ℕ) :
    (Range.mk start (toInt (first + second))).covers point =
      (Range.mk start first).covers point + (Range.mk (start + first.toNat) second).covers point := by
  have hsplit := Range.covers_add start first.toNat hsecond point
  rwa [Int.toNat_of_nonneg hfirst.le, ← toInt_eq (show -2 ^ 31 ≤ first + second by omega) hsum] at hsplit

/-- No join makes a gap of 2^31 bytes or more. -/
def JoinsFit (gap : Range) (gaps : List Range) : Prop :=
  (∀ prev ∈ previous gap.start gaps, prev.start + prev.size = gap.start → gap.size + prev.size < 2 ^ 31) ∧
    ∀ next ∈ following (joinPrevious gap gaps).1.start (joinPrevious gap gaps).2,
      (joinPrevious gap gaps).1.start +
          (joinPrevious gap gaps).1.size = next.start →
        (joinPrevious gap gaps).1.size + next.size < 2 ^ 31

instance (gap : Range) (gaps : List Range) : Decidable (JoinsFit gap gaps) := inferInstanceAs (Decidable (_ ∧ _))

/-- A gap stays as it is, or is joined with an adjacent one that was found. -/
inductive Join (gap : Range) (gaps : List Range) (found : Option Range) (adjacent : Range → Prop) :
    Range × List Range → Prop
  | alone : Join gap gaps found adjacent (gap, gaps)
  | joined {first second other : Range} (hfound : other ∈ found) (hadjacent : adjacent other) (hmem : other ∈ gaps)
      (hlt : first.start < second.start) (hends : first.start + first.size = second.start)
      (hpair : first = other ∧ second = gap ∨ first = gap ∧ second = other) :
      Join gap gaps found adjacent (⟨first.start, toInt (gap.size + other.size)⟩, gaps.erase other)

theorem join_previous (gap : Range) (gaps : List Range) :
    Join gap gaps (previous gap.start gaps) (fun prev ↦ prev.start + prev.size = gap.start)
      (joinPrevious gap gaps) := by
  unfold joinPrevious
  cases hprevious : previous gap.start gaps with
  | none => exact .alone
  | some prev =>
    obtain ⟨hmem, hsuits⟩ := pick_spec hprevious
    simp only
    split_ifs with hadjacent
    · exact .joined rfl hadjacent hmem (of_decide_eq_true hsuits) hadjacent (.inl ⟨rfl, rfl⟩)
    · exact .alone

theorem join_following (gap : Range) (gaps : List Range) :
    Join gap gaps (following gap.start gaps) (fun next ↦ gap.start + gap.size = next.start)
      (joinFollowing gap gaps) := by
  unfold joinFollowing
  cases hfollowing : following gap.start gaps with
  | none => exact .alone
  | some next =>
    obtain ⟨hmem, hsuits⟩ := pick_spec hfollowing
    simp only
    split_ifs with hadjacent
    · exact .joined rfl hadjacent hmem (of_decide_eq_true hsuits) hadjacent (.inr ⟨rfl, rfl⟩)
    · exact .alone

section Join

variable {found : Option Range} {adjacent : Range → Prop} {result : Range × List Range}
  (h : Join gap gaps found adjacent result)
include h

/-- A join loses bytes at most, and none if the joined size fits. -/
theorem Join.cover_le (hint : IsInt gap.size) (hgaps : SizesAreInts gaps) (point : ℕ) :
    result.1.covers point + cover result.2 point ≤ gap.covers point + cover gaps point := by
  cases h with
  | alone => exact le_rfl
  | @joined first second other hfound hadjacent hmem hlt hends hpair =>
    have herase := cover_erase hmem point
    have hother := hgaps other hmem
    have hints : IsInt first.size ∧ IsInt second.size := by
      obtain ⟨rfl, rfl⟩ | ⟨rfl, rfl⟩ := hpair
      · exact ⟨hother, hint⟩
      · exact ⟨hint, hother⟩
    have hjoined := covers_toInt first.start (show 0 < first.size by omega) hints.1.2 hints.2.1 hints.2.2 point
    rw [show first.start + first.size.toNat = second.start by omega] at hjoined
    change _ ≤ first.covers point + second.covers point at hjoined
    obtain ⟨rfl, rfl⟩ | ⟨rfl, rfl⟩ := hpair
    · rw [add_comm first.size] at hjoined
      simp only
      omega
    · simp only
      omega

theorem Join.cover_eq (hgap : 0 < gap.size) (hgaps : SizesArePositive gaps)
    (hfit : ∀ other ∈ found, adjacent other → gap.size + other.size < 2 ^ 31) (point : ℕ) :
    result.1.covers point + cover result.2 point = gap.covers point + cover gaps point := by
  cases h with
  | alone => rfl
  | @joined first second other hfound hadjacent hmem hlt hends hpair =>
    have herase := cover_erase hmem point
    have hother := hgaps other hmem
    have hsum := hfit other hfound hadjacent
    have hjoined := covers_toInt_eq first.start (show 0 < first.size by omega)
      (show 0 ≤ second.size by obtain ⟨rfl, rfl⟩ | ⟨rfl, rfl⟩ := hpair <;> omega)
      (show first.size + second.size < 2 ^ 31 by obtain ⟨rfl, rfl⟩ | ⟨rfl, rfl⟩ := hpair <;> omega) point
    rw [show first.start + first.size.toNat = second.start by omega] at hjoined
    change _ = first.covers point + second.covers point at hjoined
    obtain ⟨rfl, rfl⟩ | ⟨rfl, rfl⟩ := hpair
    · rw [add_comm first.size] at hjoined
      simp only
      omega
    · simp only
      omega

/-- What is known of all sizes after a join. -/
theorem Join.sizes (property : ℤ → Prop) (hgap : property gap.size) (hgaps : ∀ other ∈ gaps, property other.size)
    (hjoined : ∀ other ∈ found, adjacent other → property (toInt (gap.size + other.size))) :
    property result.1.size ∧ ∀ other ∈ result.2, property other.size := by
  cases h with
  | alone => exact ⟨hgap, hgaps⟩
  | joined hfound hadjacent =>
    exact ⟨hjoined _ hfound hadjacent, fun other hother ↦ hgaps other (List.mem_of_mem_erase hother)⟩

/-- What is known of all starts after a join. -/
theorem Join.starts (property : ℕ → Prop) (hgap : property gap.start) (hgaps : ∀ other ∈ gaps, property other.start) :
    property result.1.start ∧ ∀ other ∈ result.2, property other.start := by
  cases h with
  | alone => exact ⟨hgap, hgaps⟩
  | joined _ _ hmem _ _ hpair =>
    have hfound := hgaps _ hmem
    refine ⟨?_, fun other hother ↦ hgaps other (List.mem_of_mem_erase hother)⟩
    obtain ⟨rfl, rfl⟩ | ⟨rfl, rfl⟩ := hpair
    · exact hfound
    · exact hgap

end Join

end Cover

/-! ### What `add` does -/

section Add

variable {gaps : List Range} {start : ℕ} {size : ℤ}

theorem cover_addLocked (gap : Range) (gaps : List Range) (point : ℕ) :
    cover (addLocked gap gaps) point =
      (joinFollowing (joinPrevious gap gaps).1
          (joinPrevious gap gaps).2).1.covers point +
        cover (joinFollowing (joinPrevious gap gaps).1
          (joinPrevious gap gaps).2).2 point := by
  simp only [addLocked, cover_append, cover_cons, cover_nil]
  omega

/-- What is known of all sizes after `add`. -/
theorem addLocked_sizes (property : ℤ → Prop) {gap : Range} (hgap : property gap.size)
    (hgaps : ∀ other ∈ gaps, property other.size)
    (hprevious : ∀ prev ∈ previous gap.start gaps, prev.start + prev.size = gap.start →
      property (toInt (gap.size + prev.size)))
    (hfollowing : ∀ next ∈ following (joinPrevious gap gaps).1.start
        (joinPrevious gap gaps).2,
      (joinPrevious gap gaps).1.start +
          (joinPrevious gap gaps).1.size = next.start →
        property (toInt ((joinPrevious gap gaps).1.size + next.size))) :
    ∀ other ∈ addLocked gap gaps, property other.size := by
  obtain ⟨hfirst, hothers⟩ := (join_previous gap gaps).sizes property hgap hgaps hprevious
  obtain ⟨hjoined, hrest⟩ := (join_following _ _).sizes property hfirst hothers hfollowing
  intro other hother
  obtain hother | hother := List.mem_append.mp hother
  · exact hrest other hother
  · rw [List.mem_singleton.mp hother]
    exact hjoined

theorem forall_start_add (property : ℕ → Prop) (hstart : property start)
    (hgaps : ∀ other ∈ gaps, property other.start) :
    ∀ other ∈ GenericGapTracker.add start size gaps, property other.start := by
  unfold GenericGapTracker.add
  split_ifs with hsize
  · exact hgaps
  · have hgap : property (Range.mk start size).start := hstart
    obtain ⟨hfirst, hothers⟩ := (join_previous _ _).starts property hgap hgaps
    obtain ⟨hjoined, hrest⟩ := (join_following _ _).starts property hfirst hothers
    intro other hother
    obtain hother | hother := List.mem_append.mp hother
    · exact hrest other hother
    · rw [List.mem_singleton.mp hother]
      exact hjoined

theorem sizesAreInts_add (hgaps : SizesAreInts gaps) (hint : size < 2 ^ 31) :
    SizesAreInts (GenericGapTracker.add start size gaps) := by
  unfold GenericGapTracker.add
  split_ifs with hsize
  · exact hgaps
  · have hgap : IsInt (Range.mk start size).size := ⟨by simp only; omega, hint⟩
    exact addLocked_sizes IsInt hgap hgaps (fun _ _ _ ↦ toInt_bounds _) fun _ _ _ ↦ toInt_bounds _

/-- The gaps never cover more than they did and what was added. -/
theorem cover_add_le (hgaps : SizesAreInts gaps) (hint : size < 2 ^ 31) (point : ℕ) :
    cover (GenericGapTracker.add start size gaps) point ≤ cover gaps point + (Range.mk start size).covers point := by
  unfold GenericGapTracker.add
  split_ifs with hsize
  · exact Nat.le_add_right _ _
  · have hpositive : 0 < (Range.mk start size).size := by
      simp only
      omega
    have hgap : IsInt (Range.mk start size).size := ⟨by simp only; omega, hint⟩
    obtain ⟨hjoined, hrest⟩ := (join_previous _ _).sizes IsInt hgap hgaps fun _ _ _ ↦ toInt_bounds _
    have hfirst := (join_previous _ _).cover_le hgap hgaps point
    have hsecond := (join_following _ _).cover_le hjoined hrest point
    rw [cover_addLocked]
    omega

theorem sizesArePositive_joinPrevious (hgaps : SizesArePositive gaps) {gap : Range} (hgap : 0 < gap.size)
    (hfit : ∀ prev ∈ previous gap.start gaps, prev.start + prev.size = gap.start → gap.size + prev.size < 2 ^ 31) :
    0 < (joinPrevious gap gaps).1.size ∧
      SizesArePositive (joinPrevious gap gaps).2 := by
  refine (join_previous gap gaps).sizes (fun size ↦ 0 < size) hgap hgaps fun prev hprev hadjacent ↦ ?_
  have hpositive := hgaps prev (pick_spec hprev).1
  rw [toInt_eq (by omega) (hfit prev hprev hadjacent)]
  omega

section

variable (hgaps : SizesArePositive gaps) (hfit : 0 < size → JoinsFit ⟨start, size⟩ gaps)
include hgaps hfit

theorem sizesArePositive_add : SizesArePositive (GenericGapTracker.add start size gaps) := by
  unfold GenericGapTracker.add
  split_ifs with hsize
  · exact hgaps
  · have hpositive : 0 < (Range.mk start size).size := by
      simp only
      omega
    obtain ⟨hprevious, hfollowing⟩ := hfit (by omega)
    obtain ⟨hjoined, hrest⟩ := sizesArePositive_joinPrevious hgaps hpositive hprevious
    refine addLocked_sizes (fun size ↦ 0 < size) hpositive hgaps (fun prev hprev hadjacent ↦ ?_)
      fun next hnext hadjacent ↦ ?_
    · have hprev' := hgaps prev (pick_spec hprev).1
      rw [toInt_eq (by omega) (hprevious prev hprev hadjacent)]
      omega
    · have hnext' := hrest next (pick_spec hnext).1
      rw [toInt_eq (by omega) (hfollowing next hnext hadjacent)]
      omega

/-- As long as the joined sizes fit, the gaps cover what they did and what was added. -/
theorem cover_add_eq (point : ℕ) :
    cover (GenericGapTracker.add start size gaps) point = cover gaps point + (Range.mk start size).covers point := by
  unfold GenericGapTracker.add
  split_ifs with hsize
  · rw [Range.covers_of_size_nonpos hsize, Nat.add_zero]
  · have hpositive : 0 < (Range.mk start size).size := by
      simp only
      omega
    obtain ⟨hprevious, hfollowing⟩ := hfit (by omega)
    obtain ⟨hjoined, hrest⟩ := sizesArePositive_joinPrevious hgaps hpositive hprevious
    have hfirst := (join_previous _ _).cover_eq hpositive hgaps hprevious point
    have hsecond := (join_following _ _).cover_eq hjoined hrest hfollowing point
    rw [cover_addLocked]
    omega

end

end Add

/-! ### Saving and loading -/

namespace GenericGapTracker

/-- The keys of `mBySize`. -/
def sizes (gaps : List Range) : List ℤ := (gaps.map Range.size).dedup.insertionSort (· ≤ ·)

/-- The starts of the gaps of one size. -/
def startsOf (gaps : List Range) (size : ℤ) : List ℕ := (gaps.filter fun gap ↦ gap.size = size).map Range.start

/-- Positions after the first one, each as its distance from the one before. -/
def putDeltas : ℕ → List ℕ → List UInt8
  | _, [] => []
  | pos, newPos :: rest => putPackedSignedNum ((newPos : ℤ) - pos) ++ putDeltas newPos rest

def saveGroup (size : ℤ) (starts : List ℕ) : List UInt8 :=
  putPackedNum (UInt64.ofInt size) ++ (putPackedNum (UInt64.ofNat starts.length) ++
    (putBe64 (UInt64.ofNat (starts.headD 0)) ++ putDeltas (starts.headD 0) starts.tail))

def save (gaps : List Range) : List UInt8 := putBe32 (UInt32.ofNat (sizes gaps).length) ++
    (sizes gaps).flatMap fun size ↦ saveGroup size (startsOf gaps size)

def getDeltas : ℕ → ℕ → List UInt8 → List ℕ × List UInt8
  | 0, _, stream => ([], stream)
  | count + 1, pos, stream =>
    let (delta, afterDelta) := getPackedSignedNum stream
    let newPos := (pos + delta).toNat
    let (starts, rest) := getDeltas count newPos afterDelta
    (newPos :: starts, rest)

def loadGroup (stream : List UInt8) : List Range × List UInt8 :=
  let (num, afterSize) := getPackedNum stream
  let (posCount, afterCount) := getPackedNum afterSize
  let (pos, afterPos) := getBe64 afterCount
  let (starts, rest) := getDeltas (posCount.toNat - 1) pos.toNat afterPos
  ((pos.toNat :: starts).map fun start ↦ ⟨start, toInt num.toNat⟩, rest)

def loadGroups : ℕ → List UInt8 → List Range × List UInt8
  | 0, stream => ([], stream)
  | count + 1, stream =>
    let (group, afterGroup) := loadGroup stream
    let (groups, rest) := loadGroups count afterGroup
    (group ++ groups, rest)

def load (stream : List UInt8) : List Range :=
  let (gapsCount, afterCount) := getBe32 stream
  (loadGroups gapsCount.toNat afterCount).1

variable {size : ℤ} {gaps : List Range}

theorem toInt_ofInt (h : IsInt size) : toInt (UInt64.ofInt size).toNat = size := by
  obtain ⟨hlow, hhigh⟩ := h
  have hnat : ((UInt64.ofInt size).toNat : ℤ) = size % 2 ^ 64 := by
    rw [UInt64.ofInt, UInt64.toNat_ofNat_of_lt' (by rw [UInt64.size]; omega)]
    omega
  rw [hnat, toInt, Int.bmod_def]
  split_ifs <;> omega

theorem length_putDeltas (pos : ℕ) (starts : List ℕ) : starts.length ≤ (putDeltas pos starts).length := by
  induction starts generalizing pos with
  | nil => exact Nat.zero_le _
  | cons newPos rest ih =>
    have hrest := ih newPos
    have hone : 1 ≤ (putPackedSignedNum ((newPos : ℤ) - pos)).length := by
      unfold putPackedSignedNum putPackedNum
      split_ifs <;> exact length_packedBytes_pos _ _
    rw [putDeltas, List.length_append, List.length_cons]
    omega

theorem getDeltas_putDeltas {pos : ℕ} {starts : List ℕ} (hpos : pos < 2 ^ 63)
    (hstarts : ∀ start ∈ starts, start < 2 ^ 63) (rest : List UInt8) :
    getDeltas starts.length pos (putDeltas pos starts ++ rest) = (starts, rest) := by
  induction starts generalizing pos with
  | nil => rfl
  | cons newPos starts ih =>
    have hnew := hstarts newPos (.head starts)
    have hdelta : ((newPos : ℤ) - pos).natAbs < 2 ^ 63 := by omega
    have hback : ((pos : ℤ) + ((newPos : ℤ) - pos)).toNat = newPos := by omega
    rw [List.length_cons, getDeltas, putDeltas, List.append_assoc, getPackedSignedNum_putPackedSignedNum hdelta]
    simp only [hback, ih hnew fun start hstart ↦ hstarts start (.tail newPos hstart)]

theorem loadGroup_saveGroup {starts : List ℕ} (hsize : IsInt size)
    (hstarts : ∀ start ∈ starts, start < 2 ^ 63) (hne : starts ≠ [])
    (hlength : (saveGroup size starts).length < 2 ^ 63) (rest : List UInt8) :
    loadGroup (saveGroup size starts ++ rest) = (starts.map fun start ↦ ⟨start, size⟩, rest) := by
  obtain ⟨first, starts, rfl⟩ := List.exists_cons_of_ne_nil hne
  have hcount : (UInt64.ofNat (first :: starts).length).toNat - 1 = starts.length := by
    have hbytes := length_putDeltas first starts
    simp only [saveGroup, List.length_append, List.headD_cons, List.tail_cons, length_putBe64] at hlength
    rw [UInt64.toNat_ofNat_of_lt' (by rw [UInt64.size, List.length_cons]; omega), List.length_cons,
      Nat.add_sub_cancel]
  have hfirst : (UInt64.ofNat first).toNat = first := by
    have hlt := hstarts first (.head starts)
    exact UInt64.toNat_ofNat_of_lt' (by rw [UInt64.size]; omega)
  simp only [saveGroup, loadGroup, List.append_assoc, getPackedNum_putPackedNum, getBe64_putBe64,
    List.headD_cons, List.tail_cons, hcount, hfirst, toInt_ofInt hsize]
  rw [getDeltas_putDeltas (hstarts first (.head starts)) fun start hstart ↦
    hstarts start (.tail first hstart)]

/-- The gaps of the given sizes, in that order. -/
def ofSizes (gaps : List Range) (keys : List ℤ) : List Range :=
  keys.flatMap fun size ↦ gaps.filter fun gap ↦ gap.size = size

theorem map_startsOf (gaps : List Range) (size : ℤ) : (startsOf gaps size).map (fun start ↦ (⟨start, size⟩ : Range)) =
      gaps.filter fun gap ↦ gap.size = size := by
  rw [startsOf, List.map_map]
  conv_rhs => rw [← List.map_id (gaps.filter fun gap ↦ gap.size = size)]
  apply List.map_congr_left
  intro gap hgap
  have hsize : gap.size = size := by simpa using (List.mem_filter.mp hgap).2
  subst hsize
  rfl

theorem mem_sizes : size ∈ sizes gaps ↔ ∃ gap ∈ gaps, gap.size = size := by
  simp [sizes, List.mem_insertionSort]

theorem nodup_sizes (gaps : List Range) : (sizes gaps).Nodup :=
  (List.perm_insertionSort _ _).nodup_iff.mpr (List.nodup_dedup _)

/-- Only gaps that were there are loaded, each at most once. -/
theorem ofSizes_perm {keys : List ℤ} (h : keys.Nodup) :
    (ofSizes gaps keys).Perm (gaps.filter fun gap ↦ gap.size ∈ keys) := by
  induction keys with
  | nil => simp [ofSizes]
  | cons size keys ih =>
    obtain ⟨hnot, hnodup⟩ := List.nodup_cons.mp h
    have hsplit := List.filter_append_perm (fun gap : Range ↦ decide (gap.size = size))
      (gaps.filter fun gap ↦ gap.size ∈ size :: keys)
    have hfirst : (gaps.filter fun gap ↦ gap.size ∈ size :: keys).filter
        (fun gap ↦ decide (gap.size = size)) = gaps.filter fun gap ↦ gap.size = size := by
      rw [List.filter_filter]
      apply List.filter_congr
      intro gap _
      by_cases heq : gap.size = size <;> simp [heq]
    have hrest : (gaps.filter fun gap ↦ gap.size ∈ size :: keys).filter
        (fun gap ↦ !decide (gap.size = size)) = gaps.filter fun gap ↦ gap.size ∈ keys := by
      rw [List.filter_filter]
      apply List.filter_congr
      intro gap _
      by_cases heq : gap.size = size
      · simp [heq, hnot]
      · simp [heq]
    rw [hfirst, hrest] at hsplit
    exact ((ih hnodup).append_left _).trans hsplit

section

variable (hints : SizesAreInts gaps) (hstarts : ∀ gap ∈ gaps, gap.start < 2 ^ 63)
include hints hstarts

theorem loadGroups_saveGroups (rest : List UInt8) {keys : List ℤ} (hkeys : ∀ size ∈ keys, size ∈ sizes gaps)
    (hlength : (keys.flatMap fun size ↦ saveGroup size (startsOf gaps size)).length < 2 ^ 63) {count : ℕ}
    (hcount : count ≤ keys.length) :
    loadGroups count ((keys.flatMap fun size ↦ saveGroup size (startsOf gaps size)) ++ rest) =
      (ofSizes gaps (keys.take count),
        ((keys.drop count).flatMap fun size ↦ saveGroup size (startsOf gaps size)) ++ rest) := by
  induction keys generalizing count with
  | nil =>
    obtain rfl : count = 0 := Nat.le_zero.mp hcount
    rfl
  | cons size keys ih =>
    cases count with
    | zero => rfl
    | succ count =>
      obtain ⟨gap, hgap, hsize⟩ := mem_sizes.mp (hkeys size (.head keys))
      have hne : startsOf gaps size ≠ [] := by
        refine List.ne_nil_of_mem (List.mem_map_of_mem (a := gap) ?_)
        exact List.mem_filter.mpr ⟨hgap, by simpa using hsize⟩
      have hbelow : ∀ start ∈ startsOf gaps size, start < 2 ^ 63 := by
        intro start hstart
        obtain ⟨other, hother, rfl⟩ := List.mem_map.mp hstart
        exact hstarts other (List.mem_filter.mp hother).1
      rw [List.flatMap_cons, List.length_append] at hlength
      have hgroup := loadGroup_saveGroup (hsize ▸ hints gap hgap) hbelow hne (by omega)
        ((keys.flatMap fun size ↦ saveGroup size (startsOf gaps size)) ++ rest)
      have hothers := ih (fun other hother ↦ hkeys other (.tail size hother)) (by omega)
        (Nat.le_of_succ_le_succ hcount)
      rw [List.flatMap_cons, List.append_assoc, loadGroups, hgroup]
      simp only [hothers, map_startsOf]
      rfl

/-- Of the groups as many are loaded as their number, cut to 32 bits, says. -/
theorem load_save (hlength : (save gaps).length < 2 ^ 63) :
    load (save gaps) = ofSizes gaps ((sizes gaps).take ((sizes gaps).length % 2 ^ 32)) := by
  have hcount : (UInt32.ofNat (sizes gaps).length).toNat = (sizes gaps).length % 2 ^ 32 := rfl
  have hbytes : ((sizes gaps).flatMap fun size ↦
      saveGroup size (startsOf gaps size)).length < 2 ^ 63 := by
    rw [save, List.length_append] at hlength
    omega
  have hgroups := loadGroups_saveGroups hints hstarts [] (fun _ hsize ↦ hsize) hbytes
    (Nat.mod_le (sizes gaps).length (2 ^ 32))
  rw [List.append_nil] at hgroups
  simp only [load, save, getBe32_putBe32, hcount, hgroups]

theorem cover_load_save_le (hlength : (save gaps).length < 2 ^ 63) (point : ℕ) :
    cover (load (save gaps)) point ≤ cover gaps point := by
  have hnodup : ((sizes gaps).take ((sizes gaps).length % 2 ^ 32)).Nodup :=
    (nodup_sizes gaps).sublist (List.take_sublist _ _)
  rw [load_save hints hstarts hlength, cover_perm (ofSizes_perm hnodup)]
  exact cover_sublist List.filter_sublist point

end

theorem mem_of_mem_load_save (hints : SizesAreInts gaps) (hstarts : ∀ gap ∈ gaps, gap.start < 2 ^ 63)
    (hlength : (save gaps).length < 2 ^ 63) {gap : Range} (h : gap ∈ load (save gaps)) : gap ∈ gaps := by
  rw [load_save hints hstarts hlength] at h
  obtain ⟨size, _, hgap⟩ := List.mem_flatMap.mp h
  exact (List.mem_filter.mp hgap).1

/-- There are fewer than 2^32 sizes other than 0. -/
theorem length_sizes_lt (hints : SizesAreInts gaps) (hne : ∀ gap ∈ gaps, gap.size ≠ 0) :
    (sizes gaps).length < 2 ^ 32 := by
  have hsubset : (sizes gaps).toFinset ⊆ Finset.Ico (-2 ^ 31) (2 ^ 31 : ℤ) := by
    intro size hsize
    obtain ⟨gap, hgap, rfl⟩ := mem_sizes.mp (List.mem_toFinset.mp hsize)
    rw [Finset.mem_Ico]
    exact hints gap hgap
  have hzero : (0 : ℤ) ∈ Finset.Ico (-2 ^ 31) (2 ^ 31 : ℤ) := by
    rw [Finset.mem_Ico]
    omega
  have hnot : (0 : ℤ) ∉ (sizes gaps).toFinset := by
    intro hmem
    obtain ⟨gap, hgap, hsize⟩ := mem_sizes.mp (List.mem_toFinset.mp hmem)
    exact hne gap hgap hsize
  have hcard := Finset.card_lt_card ((Finset.ssubset_iff_of_subset hsubset).mpr ⟨0, hzero, hnot⟩)
  rw [List.toFinset_card_of_nodup (nodup_sizes gaps), Int.card_Ico] at hcard
  omega

theorem ofSizes_sizes_perm (gaps : List Range) : (ofSizes gaps (sizes gaps)).Perm gaps := by
  have hall : gaps.filter (fun gap ↦ gap.size ∈ sizes gaps) = gaps := by
    apply List.filter_eq_self.mpr
    intro gap hgap
    exact decide_eq_true (mem_sizes.mpr ⟨gap, hgap, rfl⟩)
  exact (ofSizes_perm (nodup_sizes gaps)).trans (List.Perm.of_eq hall)

/-- All gaps come back if all their sizes are positive. -/
theorem load_save_perm (hints : SizesAreInts gaps) (hpositive : SizesArePositive gaps)
    (hstarts : ∀ gap ∈ gaps, gap.start < 2 ^ 63) (hlength : (save gaps).length < 2 ^ 63) :
    (load (save gaps)).Perm gaps := by
  have hfew := length_sizes_lt hints fun gap hgap ↦ (hpositive gap hgap).ne'
  rw [load_save hints hstarts hlength, Nat.mod_eq_of_lt hfew, List.take_length]
  exact ofSizes_sizes_perm gaps

end GenericGapTracker

/-! ## The two trackers -/

/-- The tracker of a compressed file, or of one whose gaps are all of one size. Of
`OneSizeGapTracker` the starts from `mCurrentPos` on are kept. -/
inductive GapTracker where
  | generic (gaps : List Range)
  | oneSize (mGapStarts : List ℕ) (mSize : ℤ)
deriving Repr, DecidableEq

namespace GapTracker

def allocate (size : ℕ) : GapTracker → Option ℕ × GapTracker
  | generic gaps =>
    let (pos, rest) := GenericGapTracker.allocate size gaps
    (pos, generic rest)
  | oneSize [] mSize => (none, oneSize [] mSize)
  | oneSize (start :: rest) mSize => (some start, oneSize rest (if mSize = 0 then size else mSize))

def add (start : ℕ) (size : ℤ) : GapTracker → GapTracker
  | generic gaps => generic (GenericGapTracker.add start size gaps)
  | oneSize mGapStarts mSize => oneSize (mGapStarts ++ [start]) (if mSize = 0 then size else mSize)

def wastedSpace : GapTracker → ℤ
  | generic gaps => GenericGapTracker.wastedSpace gaps
  | oneSize mGapStarts mSize => mSize * mGapStarts.length

def save : GapTracker → List UInt8
  | generic gaps => GenericGapTracker.save gaps
  | oneSize [] _ => putBe32 0
  | oneSize mGapStarts mSize => putBe32 1 ++ GenericGapTracker.saveGroup mSize mGapStarts

/-- The tracker that `readIndex` makes. -/
def load (compressed : Bool) (stream : List UInt8) : GapTracker :=
  if compressed then generic (GenericGapTracker.load stream)
  else
    let (gapsCount, afterCount) := getBe32 stream
    if gapsCount.toNat > 0 then
      let group := (GenericGapTracker.loadGroup afterCount).1
      oneSize (group.map Range.start) ((group.head?.map Range.size).getD 0)
    else oneSize [] 0

/-- The gaps of the tracker. -/
def gaps : GapTracker → List Range
  | generic gaps => gaps
  | oneSize mGapStarts mSize => mGapStarts.map fun start ↦ ⟨start, mSize⟩

end GapTracker

end FdeEmugl.Snapshot

import FdeEmugl.Snapshot.GapIndices

/-!
# The format of the gap trackers

Both classes write the number of sizes and, for each size, how many gaps have it, the first start as it is
and the others as differences. A `GenericGapTracker` links the gaps that it reads one after the other; a
`OneSizeGapTracker` keeps the starts of one size in a vector and a cursor in front of the next one.
-/

namespace FdeEmugl.Snapshot

open FdeEmugl.Stream

/-- The values of an `int64_t`. -/
def IsInt64 (value : ℤ) : Prop := -2 ^ 63 ≤ value ∧ value < 2 ^ 63

instance (value : ℤ) : Decidable (IsInt64 value) := inferInstanceAs (Decidable (_ ∧ _))

instance (value : ℤ) : Decidable (IsInt value) := inferInstanceAs (Decidable (_ ∧ _))

theorem toInt64_eq {value : ℤ} (h : IsInt64 value) : toInt64 value = value := by
  obtain ⟨hlow, hhigh⟩ := h
  unfold toInt64
  apply Int.bmod_eq_of_le <;> omega

/-- A position that `putBe64` writes and `getBe64` reads. -/
theorem toInt64_ofInt {pos : ℤ} (h : IsInt64 pos) : toInt64 (UInt64.ofInt pos).toNat = pos := by
  obtain ⟨hlow, hhigh⟩ := h
  have hnat : ((UInt64.ofInt pos).toNat : ℤ) = pos % 2 ^ 64 := by
    rw [UInt64.ofInt, UInt64.toNat_ofNat_of_lt' (by rw [UInt64.size]; omega)]
    omega
  rw [hnat, toInt64, Int.bmod_def]
  split_ifs <;> omega

/-! ## The gaps of one size -/

/-- The starts behind the first one, each as its difference to the one before. -/
def putDeltas : ℤ → List ℤ → List UInt8
  | _, [] => []
  | pos, newPos :: starts => putPackedSignedNum (toInt64 (newPos - pos)) ++ putDeltas newPos starts

def saveGroup (size : ℤ) (starts : List ℤ) : List UInt8 :=
  putPackedNum (UInt64.ofInt size) ++ (putPackedNum (UInt64.ofNat starts.length) ++
    (putBe64 (UInt64.ofInt (starts.headD 0)) ++ putDeltas (starts.headD 0) starts.tail))

/-- The turns of the loop for the differences. Its counter is an `int` that starts with 1; the one after
2^31 - 1 is negative, which is more than `posCount` when both are unsigned. -/
def deltaTurns (posCount : UInt64) : ℕ := min (posCount.toNat - 1) (2 ^ 31 - 1)

def getDeltas : ℕ → ℤ → List UInt8 → List ℤ × List UInt8
  | 0, _, stream => ([], stream)
  | count + 1, pos, stream =>
    let (delta, afterDelta) := getPackedSignedNum stream
    let (starts, rest) := getDeltas count (toInt64 (pos + delta)) afterDelta
    (toInt64 (pos + delta) :: starts, rest)

def loadGroup (stream : List UInt8) : (ℤ × List ℤ) × List UInt8 :=
  let (size, afterSize) := getPackedNum stream
  let (posCount, afterCount) := getPackedNum afterSize
  let (pos, afterPos) := getBe64 afterCount
  let (starts, rest) := getDeltas (deltaTurns posCount) (toInt64 pos.toNat) afterPos
  ((toInt size.toNat, toInt64 pos.toNat :: starts), rest)

/-- Starts that come back: not too many for an `int`, and no difference too large for an `int64_t`. -/
def Savable (starts : List ℤ) : Prop :=
  starts.length < 2 ^ 31 ∧ starts.IsChain fun pos newPos ↦ (newPos - pos).natAbs < 2 ^ 63

instance (starts : List ℤ) : Decidable (Savable starts) := inferInstanceAs (Decidable (_ ∧ _))

section Group

variable {pos size : ℤ} {starts : List ℤ}

theorem getDeltas_putDeltas (hchain : (pos :: starts).IsChain fun pos newPos ↦ (newPos - pos).natAbs < 2 ^ 63)
    (hstarts : ∀ start ∈ starts, IsInt64 start) (rest : List UInt8) :
    getDeltas starts.length pos (putDeltas pos starts ++ rest) = (starts, rest) := by
  induction starts generalizing pos with
  | nil => rfl
  | cons newPos starts ih =>
    obtain ⟨hdelta, hrest⟩ := List.isChain_cons_cons.mp hchain
    have hsame : toInt64 (newPos - pos) = newPos - pos := toInt64_eq ⟨by omega, by omega⟩
    have hpos : toInt64 (pos + (newPos - pos)) = newPos := by
      rw [add_sub_cancel]
      exact toInt64_eq (hstarts newPos (.head starts))
    have hothers := ih hrest fun start hstart ↦ hstarts start (.tail newPos hstart)
    simp only [List.length_cons, putDeltas, hsame, List.append_assoc, getDeltas,
      getPackedSignedNum_putPackedSignedNum hdelta, hpos, hothers]

theorem length_getDeltas (count : ℕ) (pos : ℤ) (stream : List UInt8) :
    (getDeltas count pos stream).1.length = count := by
  induction count generalizing pos stream with
  | zero => rfl
  | succ count ih => simp [getDeltas, ih]

theorem loadGroup_saveGroup (hsize : IsInt size) (hne : starts ≠ []) (hstarts : ∀ start ∈ starts, IsInt64 start)
    (hsavable : Savable starts) (rest : List UInt8) :
    loadGroup (saveGroup size starts ++ rest) = ((size, starts), rest) := by
  obtain ⟨hfew, hchain⟩ := hsavable
  obtain ⟨pos, starts, rfl⟩ := List.exists_cons_of_ne_nil hne
  have hcount : deltaTurns (UInt64.ofNat (starts.length + 1)) = starts.length := by
    have hlength : starts.length + 1 < 2 ^ 31 := hfew
    rw [deltaTurns, UInt64.toNat_ofNat_of_lt' (by rw [UInt64.size]; omega)]
    omega
  have hpos := toInt64_ofInt (hstarts pos (.head starts))
  have hdeltas := getDeltas_putDeltas hchain (fun start hstart ↦ hstarts start (.tail pos hstart)) rest
  simp only [saveGroup, List.headD_cons, List.tail_cons, List.length_cons, List.append_assoc, loadGroup,
    getPackedNum_putPackedNum, getBe64_putBe64, hcount, hpos, hdeltas, GenericGapTracker.toInt_ofInt hsize]

/-- So many starts are read as the counter of the loop allows. -/
theorem length_loadGroup_saveGroup (hlength : starts.length < 2 ^ 64) (rest : List UInt8) :
    (loadGroup (saveGroup size starts ++ rest)).1.2.length = min (starts.length - 1) (2 ^ 31 - 1) + 1 := by
  simp only [saveGroup, List.append_assoc, loadGroup, getPackedNum_putPackedNum, getBe64_putBe64, List.length_cons,
    length_getDeltas, deltaTurns, UInt64.toNat_ofNat_of_lt' (show starts.length < UInt64.size from hlength)]

end Group

/-! ## `GenericGapTracker` -/

namespace GapIndices

def save (tracker : GapIndices) : List UInt8 := putBe32 (UInt32.ofNat tracker.mBySize.entries.length) ++
    tracker.mBySize.entries.flatMap fun entry ↦ saveGroup entry.1 entry.2

/-- Gaps that are linked in this order. -/
def linkAll (size : ℤ) (starts : List ℤ) (tracker : GapIndices) : GapIndices :=
  starts.foldl (fun tracker start ↦ tracker.link start size) tracker

def loadGroups : ℕ → GapIndices → List UInt8 → GapIndices × List UInt8
  | 0, tracker, stream => (tracker, stream)
  | count + 1, tracker, stream =>
    let ((size, starts), afterGroup) := loadGroup stream
    loadGroups count (tracker.linkAll size starts) afterGroup

/-- The counter of the groups is an `int`, too. -/
def load (tracker : GapIndices) (stream : List UInt8) : GapIndices × List UInt8 :=
  let (gapsCount, afterCount) := getBe32 stream
  let (tracker, rest) := loadGroups (min gapsCount.toNat (2 ^ 31)) ⟨.empty, .empty, tracker.mEmpty⟩ afterCount
  ({ tracker with mEmpty := tracker.mByStart.entries.isEmpty }, rest)

end GapIndices

/-! ## `OneSizeGapTracker` -/

/-- `mCurrentPos` and `mSize` are of type `int32_t`. -/
structure OneSizeGapTracker where
  mGapStarts : List ℤ
  mCurrentPos : ℤ
  mSize : ℤ
  mEmpty : Bool
deriving DecidableEq

namespace OneSizeGapTracker

def new : OneSizeGapTracker := ⟨[], 0, 0, true⟩

/-- The starts from the cursor on. -/
def remaining (tracker : OneSizeGapTracker) : List ℤ := tracker.mGapStarts.drop tracker.mCurrentPos.toNat

def gaps (tracker : OneSizeGapTracker) : List (ℤ × ℤ) := tracker.remaining.map fun start ↦ (start, tracker.mSize)

def load (tracker : OneSizeGapTracker) (stream : List UInt8) : OneSizeGapTracker × List UInt8 :=
  let (gapsCount, afterCount) := getBe32 stream
  if gapsCount.toNat > 0 then
    let ((size, starts), rest) := loadGroup afterCount
    (⟨starts, 0, size, starts.isEmpty⟩, rest)
  else (⟨[], 0, tracker.mSize, true⟩, afterCount)

def save (tracker : OneSizeGapTracker) : List UInt8 :=
  if tracker.mEmpty then putBe32 0 else putBe32 1 ++ saveGroup tracker.mSize tracker.remaining

def allocate (size : ℤ) (tracker : OneSizeGapTracker) : Option ℤ × OneSizeGapTracker :=
  if tracker.mEmpty then (none, tracker)
  else if tracker.mCurrentPos = tracker.mGapStarts.length then (none, tracker)
  else
    let mSize := if tracker.mSize = 0 then size else tracker.mSize
    let res := tracker.mGapStarts.getD tracker.mCurrentPos.toNat 0
    let mCurrentPos := toInt (tracker.mCurrentPos + 1)
    if mCurrentPos = tracker.mGapStarts.length then (some res, ⟨[], 0, mSize, true⟩)
    else (some res, { tracker with mCurrentPos, mSize })

def add (start size : ℤ) (tracker : OneSizeGapTracker) : OneSizeGapTracker where
  mGapStarts := tracker.mGapStarts ++ [start]
  mCurrentPos := tracker.mCurrentPos
  mSize := if tracker.mSize = 0 then size else tracker.mSize
  mEmpty := if tracker.mCurrentPos = tracker.mGapStarts.length then false else tracker.mEmpty

end OneSizeGapTracker

end FdeEmugl.Snapshot

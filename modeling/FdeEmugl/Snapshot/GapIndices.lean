import FdeEmugl.Library.IntervalSet
import FdeEmugl.Library.OrderedMap
import FdeEmugl.Library.Runs
import FdeEmugl.Snapshot.GapTracker

/-!
# The two indices of a GenericGapTracker

Gaps are found by their start and by their size. The entry of a start knows its entry among the sizes,
and each size has a list of starts. Adding a gap may take in the gap before it and the one after it, so
that up to two entries go and one comes; allocating takes the front of a gap. Sizes are `int`s and
positions 64-bit numbers, which no position of a file leaves.
-/

namespace FdeEmugl.Snapshot

open IntervalSet Runs
open OrderedMap

/-- `mByStart` has for each start the key of its `bySizeIt`; `bySizeListIt` is where the start stands in
the list of that key. -/
structure GapIndices where
  mByStart : OrderedMap ℤ ℤ
  mBySize : OrderedMap ℤ (List ℤ)
  mEmpty : Bool

/-- The conversion of a sum to `int64_t`. -/
def toInt64 (value : ℤ) : ℤ := value.bmod (2 ^ 64)

namespace GapIndices

def new : GapIndices := ⟨.empty, .empty, true⟩

/-- A list of one element goes with its key. -/
def eraseFromBySize (start : ℤ) (tracker : GapIndices) : GapIndices :=
  match tracker.mByStart.find start with
  | none => tracker
  | some size =>
    match tracker.mBySize.find size with
    | none => tracker
    | some starts =>
      if starts.tail = [] then { tracker with mBySize := tracker.mBySize.erase size }
      else { tracker with mBySize := tracker.mBySize.put size (starts.erase start) }

def erase (start : ℤ) (tracker : GapIndices) : GapIndices :=
  { tracker.eraseFromBySize start with mByStart := (tracker.eraseFromBySize start).mByStart.erase start }

/-- The entry of a start is made, if it is not there, and linked to the end of the list of its size. -/
def link (start size : ℤ) (tracker : GapIndices) : GapIndices :=
  { tracker with
    mByStart := tracker.mByStart.put start size
    mBySize := tracker.mBySize.put size ((tracker.mBySize.find size).getD [] ++ [start]) }

def allocate (size : ℤ) (tracker : GapIndices) : Option ℤ × GapIndices :=
  if tracker.mEmpty then (none, tracker)
  else
    match (tracker.mBySize.notBelow size).head? with
    | none => (none, tracker)
    | some (rangeSize, starts) =>
      match starts.head? with
      | none => (none, tracker)
      | some pos =>
        let erased := tracker.erase pos
        if rangeSize > size then (some pos, erased.link (pos + size) (rangeSize - size))
        else if erased.mByStart.entries = [] then (some pos, { erased with mEmpty := true })
        else (some pos, erased)

/-- The previous range is taken in if it ends exactly at `start`. -/
def joinPrevious (start size : ℤ) (tracker : GapIndices) : ℤ × ℤ × GapIndices :=
  match (tracker.mByStart.below start).getLast? with
  | none => (start, size, tracker)
  | some (prevStart, prevSize) =>
    if prevStart + prevSize = start then
      (prevStart, toInt (size + prevSize), tracker.eraseFromBySize prevStart)
    else (start, size, tracker)

/-- The next range is taken in if the new one ends where it starts. -/
def joinNext (start size : ℤ) (tracker : GapIndices) : ℤ × GapIndices :=
  match (tracker.mByStart.above start).head? with
  | none => (size, tracker)
  | some (nextStart, nextSize) =>
    if start + size = nextStart then (toInt (size + nextSize), tracker.erase nextStart) else (size, tracker)

def addLocked (start size : ℤ) (tracker : GapIndices) : GapIndices :=
  let wasEmpty : Bool := tracker.mByStart.entries.isEmpty
  let (start, size, tracker) := tracker.joinPrevious start size
  let (size, tracker) := tracker.joinNext start size
  { tracker.link start size with mEmpty := if wasEmpty then false else tracker.mEmpty }

def add (start size : ℤ) (tracker : GapIndices) : GapIndices :=
  if size ≤ 0 then tracker else tracker.addLocked start size

/-- The product is a `size_t`. -/
def wastedSpaceImpl (tracker : GapIndices) : ℤ :=
  tracker.mBySize.entries.foldl (fun prev pair ↦ toInt64 (prev + pair.1 * pair.2.length)) 0

def wastedSpace (tracker : GapIndices) : ℤ := if tracker.mEmpty then 0 else tracker.wastedSpaceImpl

/-! ## The gaps of an index -/

/-- The gaps by start. -/
def gaps (tracker : GapIndices) : Set (ℤ × ℤ) := {gap | gap ∈ tracker.mByStart.entries}

/-- The gaps by size. -/
def gapsBySize (mBySize : OrderedMap ℤ (List ℤ)) : List (ℤ × ℤ) :=
  mBySize.entries.flatMap fun entry ↦ entry.2.map fun start ↦ (start, entry.1)

/-- The index by size has just these gaps, each once, and no empty list. -/
structure Lists (gaps : Set (ℤ × ℤ)) (mBySize : OrderedMap ℤ (List ℤ)) : Prop where
  mem_iff : ∀ start size, (start, size) ∈ gaps ↔ ∃ starts, (size, starts) ∈ mBySize.entries ∧ start ∈ starts
  ne_nil : ∀ entry ∈ mBySize.entries, entry.2 ≠ []
  nodup : ∀ entry ∈ mBySize.entries, entry.2.Nodup

variable {gaps next : Set (ℤ × ℤ)} {mBySize : OrderedMap ℤ (List ℤ)} {tracker : GapIndices}
variable {start size point : ℤ} {starts : List ℤ}

/-- A gap that is taken off its list, and its list with it if there is no other. -/
theorem Lists.erase (h : Lists gaps mBySize) (hlist : (size, starts) ∈ mBySize.entries) (hstart : start ∈ starts)
    (hnext : ∀ gap, gap ∈ next ↔ gap ∈ gaps ∧ gap ≠ (start, size)) :
    Lists next
      (if starts.tail = [] then mBySize.erase size else mBySize.put size (starts.erase start)) := by
  have hnodup := h.nodup _ hlist
  have hsame (starts' : List ℤ) (hmem : (size, starts') ∈ mBySize.entries) : starts' = starts :=
    congrArg Prod.snd (eq_of_key hmem hlist rfl)
  split_ifs with honly
  · have hsingle : starts = [start] := by
      obtain ⟨first, rest, rfl⟩ := List.exists_cons_of_ne_nil (List.ne_nil_of_mem hstart)
      obtain rfl : rest = [] := honly
      rw [List.mem_singleton.mp hstart]
    refine ⟨fun start' size' ↦ ?_, fun entry hentry ↦ h.ne_nil _ (mem_erase.mp hentry).1,
      fun entry hentry ↦ h.nodup _ (mem_erase.mp hentry).1⟩
    rw [hnext, h.mem_iff]
    constructor
    · rintro ⟨⟨starts', hlist', hstart'⟩, hne⟩
      refine ⟨starts', mem_erase.mpr ⟨hlist', fun hsize ↦ ?_⟩, hstart'⟩
      obtain rfl : size' = size := hsize
      rw [hsame _ hlist', hsingle, List.mem_singleton] at hstart'
      exact hne (by rw [hstart'])
    · rintro ⟨starts', hlist', hstart'⟩
      obtain ⟨hold, hne⟩ := mem_erase.mp hlist'
      exact ⟨⟨starts', hold, hstart'⟩, fun heq ↦ hne (congrArg Prod.snd heq)⟩
  · refine ⟨fun start' size' ↦ ?_, fun entry hentry ↦ ?_, fun entry hentry ↦ ?_⟩
    · rw [hnext, h.mem_iff]
      constructor
      · rintro ⟨⟨starts', hlist', hstart'⟩, hne⟩
        by_cases hsize : size' = size
        · subst hsize
          rw [hsame _ hlist'] at hstart'
          refine ⟨_, mem_put.mpr (.inl rfl), (List.mem_erase_of_ne fun heq ↦ ?_).mpr hstart'⟩
          exact hne (by rw [heq])
        · exact ⟨starts', mem_put.mpr (.inr ⟨hlist', hsize⟩), hstart'⟩
      · rintro ⟨starts', hlist', hstart'⟩
        obtain heq | ⟨hold, hne⟩ := mem_put.mp hlist'
        · cases heq
          refine ⟨⟨starts, hlist, List.mem_of_mem_erase hstart'⟩, fun heq' ↦ ?_⟩
          obtain ⟨rfl, -⟩ := Prod.mk.inj heq'
          exact hnodup.not_mem_erase hstart'
        · exact ⟨⟨starts', hold, hstart'⟩, fun heq ↦ hne (congrArg Prod.snd heq)⟩
    · obtain rfl | ⟨hold, -⟩ := mem_put.mp hentry
      · intro hnil
        have hlength := congrArg List.length hnil
        rw [List.length_erase_of_mem hstart, List.length_nil] at hlength
        have htail : starts.tail.length = 0 := by
          rw [List.length_tail]
          exact hlength
        exact honly (List.length_eq_zero_iff.mp htail)
      · exact h.ne_nil _ hold
    · obtain rfl | ⟨hold, -⟩ := mem_put.mp hentry
      · exact hnodup.erase start
      · exact h.nodup _ hold

/-- A gap that comes to the end of the list of its size. -/
theorem Lists.link (h : Lists gaps mBySize) (hnew : (start, size) ∉ gaps)
    (hnext : ∀ gap, gap ∈ next ↔ gap = (start, size) ∨ gap ∈ gaps) :
    Lists next (mBySize.put size ((mBySize.find size).getD [] ++ [start])) := by
  have hlist : ∀ start', (start', size) ∈ gaps ↔ start' ∈ (mBySize.find size).getD [] := by
    intro start'
    rw [h.mem_iff]
    constructor
    · rintro ⟨starts, hmem, hstart⟩
      rwa [find_eq_some.mpr hmem]
    · intro hstart
      cases hfind : mBySize.find size with
      | none =>
        rw [hfind] at hstart
        cases hstart
      | some starts =>
        rw [hfind] at hstart
        exact ⟨starts, find_eq_some.mp hfind, hstart⟩
  refine ⟨fun start' size' ↦ ?_, fun entry hentry ↦ ?_, fun entry hentry ↦ ?_⟩
  · rw [hnext]
    by_cases hsize : size' = size
    · subst hsize
      rw [hlist]
      constructor
      · intro hmem
        refine ⟨_, mem_put.mpr (.inl rfl), List.mem_append.mpr ?_⟩
        exact hmem.symm.imp id fun heq ↦ List.mem_singleton.mpr (Prod.mk.inj heq).1
      · rintro ⟨starts, hmem, hstart⟩
        obtain heq | ⟨-, hne⟩ := mem_put.mp hmem
        · obtain ⟨-, rfl⟩ := Prod.mk.inj heq
          exact (List.mem_append.mp hstart).symm.imp (fun heq ↦ by rw [List.mem_singleton.mp heq]) id
        · exact absurd rfl hne
    · rw [h.mem_iff]
      constructor
      · rintro (heq | ⟨starts, hmem, hstart⟩)
        · exact absurd (congrArg Prod.snd heq) hsize
        · exact ⟨starts, mem_put.mpr (.inr ⟨hmem, hsize⟩), hstart⟩
      · rintro ⟨starts, hmem, hstart⟩
        obtain heq | ⟨hold, -⟩ := mem_put.mp hmem
        · exact absurd (congrArg Prod.fst heq) hsize
        · exact .inr ⟨starts, hold, hstart⟩
  · obtain rfl | ⟨hold, -⟩ := mem_put.mp hentry
    · simp
    · exact h.ne_nil _ hold
  · obtain rfl | ⟨hold, -⟩ := mem_put.mp hentry
    · have hold : ((mBySize.find size).getD []).Nodup := by
        cases hfind : mBySize.find size with
        | none => exact List.nodup_nil
        | some starts => exact h.nodup _ (find_eq_some.mp hfind)
      refine List.nodup_append.mpr ⟨hold, List.nodup_singleton _, fun other hother last hlast heq ↦ ?_⟩
      rw [List.mem_singleton.mp hlast] at heq
      exact hnew ((hlist start).mpr (heq ▸ hother))
    · exact h.nodup _ hold

/-! ## The steps of `add` -/

/-- The two indices belong together. -/
structure Sound (tracker : GapIndices) : Prop where
  lists : Lists tracker.gaps tracker.mBySize
  apart : Apart tracker.gaps
  empty_iff : tracker.mEmpty = true ↔ tracker.mByStart.entries = []

/-- The size of the gap that ends at a position, 0 if there is none. -/
def sizeBefore (tracker : GapIndices) (position : ℤ) : ℤ :=
  ((tracker.mByStart.entries.find? fun gap ↦ gap.1 + gap.2 = position).map Prod.snd).getD 0

/-- The size of the gap that starts at a position, 0 if there is none. -/
def sizeAfter (tracker : GapIndices) (position : ℤ) : ℤ := (tracker.mByStart.find position).getD 0

/-- The gap that an `add` makes is shorter than 2^31 bytes. -/
def Fits (tracker : GapIndices) (start size : ℤ) : Prop :=
  tracker.sizeBefore start + size + tracker.sizeAfter (start + size) < 2 ^ 31

theorem endsAt_sizeBefore (tracker : GapIndices) (position : ℤ) :
    EndsAt tracker.gaps position (tracker.sizeBefore position) := by
  unfold sizeBefore
  cases hfind : tracker.mByStart.entries.find? fun gap ↦ gap.1 + gap.2 = position with
  | none =>
    refine .inr ⟨rfl, fun gap hgap ↦ ?_⟩
    simpa using List.find?_eq_none.mp hfind gap hgap
  | some gap =>
    have hend : gap.1 + gap.2 = position := by simpa using List.find?_some hfind
    exact .inl ⟨gap, List.mem_of_find?_eq_some hfind, hend, rfl⟩

theorem beginsAt_sizeAfter (tracker : GapIndices) (position : ℤ) :
    BeginsAt tracker.gaps position (tracker.sizeAfter position) := by
  unfold sizeAfter
  cases hfind : tracker.mByStart.find position with
  | none => exact .inr ⟨rfl, find_eq_none.mp hfind⟩
  | some size => exact .inl ⟨_, find_eq_some.mp hfind, rfl, rfl⟩

theorem sizeBefore_of_mem {gap : ℤ × ℤ} (h : Apart tracker.gaps) (hgap : gap ∈ tracker.mByStart.entries)
    (hend : gap.1 + gap.2 = start) : tracker.sizeBefore start = gap.2 := by
  obtain ⟨other, hother, hend', hsize⟩ | ⟨-, hnone⟩ := tracker.endsAt_sizeBefore start
  · rw [hsize]
    have hpos := h.size_pos gap hgap
    have hpos' := h.size_pos other hother
    rcases h.trichotomy hgap hother with rfl | hbefore | hafter
    · rfl
    · omega
    · omega
  · exact absurd hend (hnone gap hgap)

theorem sizeBefore_of_none (hnone : ∀ gap ∈ tracker.mByStart.entries, gap.1 + gap.2 ≠ start) :
    tracker.sizeBefore start = 0 := by
  obtain ⟨other, hother, hend, -⟩ | ⟨hzero, -⟩ := tracker.endsAt_sizeBefore start
  · exact absurd hend (hnone other hother)
  · exact hzero

/-- Taking a gap out of the index by size does not touch the rest. -/
theorem eraseFromBySize_eq (tracker : GapIndices) (next : Set (ℤ × ℤ)) (h : Lists gaps tracker.mBySize) (hfind : (start, size) ∈ tracker.mByStart.entries)
    (hmem : (start, size) ∈ gaps) (hnext : ∀ gap, gap ∈ next ↔ gap ∈ gaps ∧ gap ≠ (start, size)) :
    ∃ mBySize, tracker.eraseFromBySize start = { tracker with mBySize } ∧ Lists next mBySize := by
  obtain ⟨starts, hlist, hstart⟩ := (h.mem_iff start size).mp hmem
  refine ⟨_, ?_, h.erase hlist hstart hnext⟩
  simp only [eraseFromBySize, find_eq_some.mpr hfind, find_eq_some.mpr hlist]
  split_ifs <;> rfl

/-- The result of taking in the gap before. -/
theorem joinPrevious_eq (h : Sound tracker) (hpos : 0 < size)
    (hfits : tracker.sizeBefore start + size < 2 ^ 31) :
    ∃ mBySize, tracker.joinPrevious start size =
        (start - tracker.sizeBefore start, tracker.sizeBefore start + size, { tracker with mBySize }) ∧
      Lists {gap | gap ∈ tracker.gaps ∧ gap.1 + gap.2 ≠ start} mBySize := by
  have hkeep (hnone : ∀ gap ∈ tracker.mByStart.entries, gap.1 + gap.2 ≠ start) :
      Lists {gap | gap ∈ tracker.gaps ∧ gap.1 + gap.2 ≠ start} tracker.mBySize := by
    have hall : {gap | gap ∈ tracker.gaps ∧ gap.1 + gap.2 ≠ start} = tracker.gaps :=
      Set.ext fun gap ↦ ⟨And.left, fun hgap ↦ ⟨hgap, hnone gap hgap⟩⟩
    rw [hall]
    exact h.lists
  unfold joinPrevious
  cases hlast : (tracker.mByStart.below start).getLast? with
  | none =>
    have hnone : ∀ gap ∈ tracker.mByStart.entries, gap.1 + gap.2 ≠ start := by
      intro gap hgap hend
      have hsize := h.apart.size_pos gap hgap
      have hbelow : gap ∈ tracker.mByStart.below start := mem_below.mpr ⟨hgap, by omega⟩
      rw [List.getLast?_eq_none_iff.mp hlast] at hbelow
      cases hbelow
    exact ⟨tracker.mBySize, by simp [sizeBefore_of_none hnone], hkeep hnone⟩
  | some prev =>
    obtain ⟨prevStart, prevSize⟩ := prev
    obtain ⟨hprev, hbelow⟩ := mem_below.mp (List.mem_of_getLast? hlast)
    have hprevSize : 0 < prevSize := h.apart.size_pos _ hprev
    dsimp only
    split_ifs with hadjacent
    · have hbefore := sizeBefore_of_mem h.apart hprev hadjacent
      obtain ⟨mBySize, herase, hlists⟩ := eraseFromBySize_eq tracker
        {gap | gap ∈ tracker.gaps ∧ gap.1 + gap.2 ≠ start} h.lists hprev hprev fun gap ↦ by
          refine and_congr_right fun hgap ↦ not_congr ⟨fun hend ↦ ?_, fun heq ↦ heq ▸ hadjacent⟩
          rcases h.apart.trichotomy hgap hprev with heq | hless | hmore
          · exact heq
          · simp only at hless
            omega
          · have hsize := h.apart.size_pos gap hgap
            simp only at hmore
            omega
      refine ⟨mBySize, ?_, hlists⟩
      dsimp only at hbefore
      rw [herase, hbefore, toInt_eq (by omega) (by omega), add_comm size]
      congr 1
      omega
    · have hnone : ∀ gap ∈ tracker.mByStart.entries, gap.1 + gap.2 ≠ start := by
        intro gap hgap hend
        have hsize := h.apart.size_pos gap hgap
        have hle := le_of_getLast_below hlast hgap (by omega)
        rcases h.apart.trichotomy hgap hprev with rfl | hless | hmore
        · exact hadjacent hend
        · simp only at hless hbelow
          omega
        · simp only at hmore hle
          omega
      exact ⟨tracker.mBySize, by simp [sizeBefore_of_none hnone], hkeep hnone⟩

/-- The result of taking in the gap after, once the one before has been taken in. -/
theorem joinNext_eq (h : Sound tracker) (hpos : 0 < size) (hfree : Free tracker.gaps start size)
    (hfits : tracker.Fits start size)
    (hlists : Lists {gap | gap ∈ tracker.gaps ∧ gap.1 + gap.2 ≠ start} mBySize) :
    ∃ result : GapIndices,
      ({ tracker with mBySize } : GapIndices).joinNext (start - tracker.sizeBefore start)
          (tracker.sizeBefore start + size) =
        (tracker.sizeBefore start + size + tracker.sizeAfter (start + size), result) ∧
      result.mEmpty = tracker.mEmpty ∧
      (∀ gap, gap ∈ result.mByStart.entries ↔ gap ∈ tracker.gaps ∧ gap.1 ≠ start + size) ∧
      Lists {gap | gap ∈ tracker.gaps ∧ gap.1 + gap.2 ≠ start ∧ gap.1 ≠ start + size} result.mBySize := by
  obtain ⟨hbefore, hprev⟩ := (tracker.endsAt_sizeBefore start).spec h.apart
  obtain ⟨hafter, hnext⟩ := (tracker.beginsAt_sizeAfter (start + size)).spec h.apart
  have hkeep (hnone : ∀ gap ∈ tracker.mByStart.entries, gap.1 ≠ start + size) :
      tracker.sizeAfter (start + size) = 0 ∧
        (∀ gap, gap ∈ tracker.mByStart.entries ↔ gap ∈ tracker.gaps ∧ gap.1 ≠ start + size) ∧
        Lists {gap | gap ∈ tracker.gaps ∧ gap.1 + gap.2 ≠ start ∧ gap.1 ≠ start + size} mBySize := by
    refine ⟨?_, fun gap ↦ ⟨fun hgap ↦ ⟨hgap, hnone gap hgap⟩, And.left⟩, ?_⟩
    · unfold sizeAfter
      rw [find_eq_none.mpr hnone]
      rfl
    · have hall : {gap | gap ∈ tracker.gaps ∧ gap.1 + gap.2 ≠ start ∧ gap.1 ≠ start + size} =
          {gap | gap ∈ tracker.gaps ∧ gap.1 + gap.2 ≠ start} :=
        Set.ext fun gap ↦ ⟨fun hgap ↦ ⟨hgap.1, hgap.2.1⟩, fun hgap ↦ ⟨hgap.1, hgap.2, hnone gap hgap.1⟩⟩
      rw [hall]
      exact hlists
  unfold joinNext
  cases hhead : (tracker.mByStart.above (start - tracker.sizeBefore start)).head? with
  | none =>
    have hnone : ∀ gap ∈ tracker.mByStart.entries, gap.1 ≠ start + size := by
      intro gap hgap hbegin
      have habove : gap ∈ tracker.mByStart.above (start - tracker.sizeBefore start) :=
        mem_above.mpr ⟨hgap, by omega⟩
      rw [List.head?_eq_none_iff.mp hhead] at habove
      cases habove
    obtain ⟨hzero, hmem, hlists'⟩ := hkeep hnone
    exact ⟨{ tracker with mBySize }, by simp only [hzero, add_zero], rfl, hmem, hlists'⟩
  | some first =>
    obtain ⟨nextStart, nextSize⟩ := first
    obtain ⟨hfirst, habove⟩ := mem_above.mp (List.mem_of_mem_head? hhead)
    dsimp only at habove ⊢
    split_ifs with hadjacent
    · obtain rfl : nextStart = start + size := by omega
      have hsize : tracker.sizeAfter (start + size) = nextSize := by
        unfold sizeAfter
        rw [find_eq_some.mpr hfirst]
        rfl
      have hnextSize : 0 < nextSize := h.apart.size_pos _ hfirst
      unfold Fits at hfits
      obtain ⟨mBySize', herase, hlists'⟩ := eraseFromBySize_eq { tracker with mBySize }
        {gap | gap ∈ tracker.gaps ∧ gap.1 + gap.2 ≠ start ∧ gap.1 ≠ start + size} hlists hfirst
        ⟨hfirst, by dsimp only; omega⟩ fun gap ↦ by
          constructor
          · rintro ⟨hgap, hend, hbegin⟩
            exact ⟨⟨hgap, hend⟩, fun heq ↦ hbegin (congrArg Prod.fst heq)⟩
          · rintro ⟨⟨hgap, hend⟩, hne⟩
            exact ⟨hgap, hend, fun hbegin ↦ hne (h.apart.eq_of_start _ hgap _ hfirst hbegin)⟩
      refine ⟨⟨tracker.mByStart.erase (start + size), mBySize', tracker.mEmpty⟩, ?_, rfl,
        fun gap ↦ mem_erase, hlists'⟩
      rw [hsize, erase, herase, toInt_eq (by omega) (by omega)]
    · have hnone : ∀ gap ∈ tracker.mByStart.entries, gap.1 ≠ start + size := by
        intro gap hgap hbegin
        have hle := le_of_head_above hhead hgap (by omega)
        dsimp only at hle
        rcases h.apart.beside hpos hfree hfirst with hlow | hhigh
        · have hsize := h.apart.size_pos _ hfirst
          dsimp only at hlow hsize
          rcases hbefore.eq_or_lt with hzero | hsome
          · omega
          · have hgap' := h.apart.gap _ (hprev hsome) _ hfirst (by dsimp only; omega)
            dsimp only at hgap'
            omega
        · dsimp only at hhigh
          omega
      obtain ⟨hzero, hmem, hlists'⟩ := hkeep hnone
      exact ⟨{ tracker with mBySize }, by simp only [hzero, add_zero], rfl, hmem, hlists'⟩

/-- A gap is linked that was in neither index. -/
theorem link_gaps (tracker : GapIndices) (start size : ℤ) (gap : ℤ × ℤ) :
    gap ∈ (tracker.link start size).gaps ↔ gap = (start, size) ∨ gap ∈ tracker.gaps ∧ gap.1 ≠ start :=
  mem_put

theorem addLocked_spec (h : Sound tracker) (hpos : 0 < size) (hfree : Free tracker.gaps start size)
    (hfits : tracker.Fits start size) :
    Sound (tracker.addLocked start size) ∧
      Joined tracker.gaps (tracker.addLocked start size).gaps start size (tracker.sizeBefore start)
        (tracker.sizeAfter (start + size)) := by
  obtain ⟨hbefore, hprev⟩ := (tracker.endsAt_sizeBefore start).spec h.apart
  obtain ⟨hafter, -⟩ := (tracker.beginsAt_sizeAfter (start + size)).spec h.apart
  have hfits' : tracker.sizeBefore start + size < 2 ^ 31 := by
    unfold Fits at hfits
    omega
  obtain ⟨mBySize, hjoin, hlists⟩ := joinPrevious_eq h hpos hfits'
  obtain ⟨result, hjoin', hempty, hentries, hlists'⟩ := joinNext_eq h hpos hfree hfits hlists
  have hadd : tracker.addLocked start size =
      { result.link (start - tracker.sizeBefore start)
          (tracker.sizeBefore start + size + tracker.sizeAfter (start + size)) with
        mEmpty := if tracker.mByStart.entries.isEmpty then false else result.mEmpty } := by
    simp only [addLocked, hjoin, hjoin']
  have haway : ∀ gap ∈ tracker.gaps, gap.1 + gap.2 ≠ start → gap.1 ≠ start + size →
      gap.1 ≠ start - tracker.sizeBefore start := by
    intro gap hgap hend hbegin heq
    have hsize := h.apart.size_pos gap hgap
    have haway := h.apart.away hpos hfree (tracker.endsAt_sizeBefore start)
      (tracker.beginsAt_sizeAfter (start + size)) hgap hend hbegin
    omega
  have hjoined : Joined tracker.gaps (tracker.addLocked start size).gaps start size
      (tracker.sizeBefore start) (tracker.sizeAfter (start + size)) := by
    intro gap
    rw [hadd]
    refine (link_gaps result _ _ gap).trans (or_congr_right ?_)
    change gap ∈ result.mByStart.entries ∧ _ ↔ _
    rw [hentries]
    constructor
    · rintro ⟨⟨hgap, hbegin⟩, hstart⟩
      refine ⟨hgap, fun hend ↦ hstart ?_, hbegin⟩
      have hsize := sizeBefore_of_mem h.apart hgap hend
      omega
    · rintro ⟨hgap, hend, hbegin⟩
      exact ⟨⟨hgap, hbegin⟩, haway gap hgap hend hbegin⟩
  refine ⟨⟨?_, ?_, ?_⟩, hjoined⟩
  · rw [hadd]
    refine hlists'.link (fun hmem ↦ haway _ hmem.1 hmem.2.1 hmem.2.2 rfl) fun gap ↦ ?_
    rw [← hadd]
    exact hjoined gap
  · exact h.apart.join hpos hfree (tracker.endsAt_sizeBefore start)
      (tracker.beginsAt_sizeAfter (start + size)) hjoined
  · have hmem := (hjoined _).mpr (.inl rfl)
    have hne : (tracker.addLocked start size).mByStart.entries ≠ [] := List.ne_nil_of_mem hmem
    refine iff_of_false ?_ hne
    rw [hadd]
    dsimp only
    split_ifs with hnone
    · decide
    · rw [hempty, h.empty_iff]
      simpa using hnone

/-! ## The steps of `allocate` -/

/-- What `allocate` answers for these gaps. -/
def BestFit (gaps : Set (ℤ × ℤ)) (size : ℤ) : Option ℤ → Prop
  | none => ∀ gap ∈ gaps, gap.2 < size
  | some pos => ∃ gap ∈ gaps, gap.1 ≤ pos ∧ pos + size ≤ gap.1 + gap.2 ∧
      ∀ other ∈ gaps, size ≤ other.2 → gap.2 ≤ other.2

/-- The gap that is taken: it is at the front of the list of the smallest size that will do. -/
theorem bestFit_of_head (h : Lists tracker.gaps tracker.mBySize)
    (hhead : (tracker.mBySize.notBelow size).head? = some (point, starts)) (hpos : starts.head? = some start) :
    (start, point) ∈ tracker.gaps ∧ size ≤ point ∧ ∀ other ∈ tracker.gaps, size ≤ other.2 → point ≤ other.2 := by
  obtain ⟨hlist, hle⟩ := mem_notBelow.mp (List.mem_of_mem_head? hhead)
  refine ⟨(h.mem_iff _ _).mpr ⟨starts, hlist, List.mem_of_mem_head? hpos⟩, hle, fun other hother hfit ↦ ?_⟩
  obtain ⟨starts', hlist', -⟩ := (h.mem_iff _ _).mp hother
  have hmem := mem_notBelow.mpr ⟨hlist', hfit⟩
  obtain ⟨rest, hrest⟩ := List.head?_eq_some_iff.mp hhead
  have hordered : (tracker.mBySize.notBelow size).Pairwise fun first second ↦ first.1 < second.1 :=
    tracker.mBySize.ordered.filter _
  rw [hrest] at hmem hordered
  rcases List.mem_cons.mp hmem with heq | hlater
  · exact (congrArg Prod.fst heq).ge
  · exact ((List.pairwise_cons.mp hordered).1 _ hlater).le

/-- The front of a gap has been taken. -/
theorem sound_carved (result : GapIndices) {pos rangeSize : ℤ} (h : Sound tracker) (hpos : 0 < size)
    (hgap : (pos, rangeSize) ∈ tracker.gaps) (hfit : size ≤ rangeSize)
    (hlists : Lists result.gaps result.mBySize)
    (hempty : result.mEmpty = true ↔ result.mByStart.entries = [])
    (hcarved : Carved tracker.gaps result.gaps pos rangeSize size) :
    Sound result ∧ ∀ point, Covers result.gaps point ↔ Covers tracker.gaps point ∧
      ∀ other ∈ some pos, ¬ (other ≤ point ∧ point < other + size) := by
  refine ⟨⟨hlists, h.apart.carve hgap hpos hcarved, hempty⟩, fun point ↦ ?_⟩
  rw [covers_carved h.apart hgap hpos hfit hcarved]
  simp

theorem allocate_spec (h : Sound tracker) (hpos : 0 < size) :
    Sound (tracker.allocate size).2 ∧ BestFit tracker.gaps size (tracker.allocate size).1 ∧
      ∀ point, Covers (tracker.allocate size).2.gaps point ↔ Covers tracker.gaps point ∧
        ∀ pos ∈ (tracker.allocate size).1, ¬ (pos ≤ point ∧ point < pos + size) := by
  unfold allocate
  cases hempty : tracker.mEmpty with
  | true =>
    have hnone := h.empty_iff.mp hempty
    refine ⟨h, fun gap hgap ↦ ?_, by simp⟩
    have hgap' : gap ∈ tracker.mByStart.entries := hgap
    rw [hnone] at hgap'
    cases hgap'
  | false =>
    rw [if_neg (by decide)]
    cases hhead : (tracker.mBySize.notBelow size).head? with
    | none =>
      refine ⟨h, fun gap hgap ↦ ?_, by simp⟩
      by_contra hfit
      obtain ⟨starts, hlist, -⟩ := (h.lists.mem_iff gap.1 gap.2).mp hgap
      have hmem := mem_notBelow.mpr ⟨hlist, not_lt.mp hfit⟩
      rw [List.head?_eq_none_iff.mp hhead] at hmem
      cases hmem
    | some entry =>
      obtain ⟨rangeSize, starts⟩ := entry
      dsimp only
      cases hstart : starts.head? with
      | none =>
        have hlist := (mem_notBelow.mp (List.mem_of_mem_head? hhead)).1
        exact absurd (List.head?_eq_none_iff.mp hstart) (h.lists.ne_nil _ hlist)
      | some pos =>
        obtain ⟨hgap, hfit, hbest⟩ := bestFit_of_head h.lists hhead hstart
        obtain ⟨mBySize, herase, hlists⟩ := eraseFromBySize_eq tracker
          {gap | gap ∈ tracker.gaps ∧ gap ≠ (pos, rangeSize)} h.lists hgap hgap fun _ ↦ Iff.rfl
        have hbestFit : BestFit tracker.gaps size (some pos) :=
          ⟨_, hgap, le_rfl, by dsimp only; omega, hbest⟩
        have heq : tracker.erase pos = ⟨tracker.mByStart.erase pos, mBySize, false⟩ := by
          rw [erase, herase, hempty]
        have herased (gap : ℤ × ℤ) : gap ∈ (tracker.mByStart.erase pos).entries ↔
            gap ∈ tracker.gaps ∧ gap ≠ (pos, rangeSize) := by
          rw [mem_erase]
          refine and_congr_right fun hmem ↦ not_congr ⟨fun heq ↦ ?_, fun heq ↦ heq ▸ rfl⟩
          exact h.apart.eq_of_start _ hmem _ hgap heq
        have hinside : ∀ gap ∈ tracker.gaps, gap ≠ (pos, rangeSize) → rangeSize > size → gap.1 ≠ pos + size := by
          intro gap hmem hne hmore hstart
          have hsize := h.apart.size_pos _ hmem
          rcases h.apart.trichotomy hmem hgap with heq | hbefore | hafter
          · exact hne heq
          · simp only at hbefore
            omega
          · simp only at hafter
            omega
        dsimp only
        rw [heq]
        by_cases hmore : rangeSize > size
        · have hlink (gap : ℤ × ℤ) :
              gap ∈ (link (pos + size) (rangeSize - size) ⟨tracker.mByStart.erase pos, mBySize, false⟩).gaps ↔
                gap = (pos + size, rangeSize - size) ∨ gap ∈ tracker.gaps ∧ gap ≠ (pos, rangeSize) := by
            refine (link_gaps _ _ _ gap).trans (or_congr_right ?_)
            refine (and_congr_left' (herased gap)).trans ⟨And.left, fun hold ↦ ⟨hold, ?_⟩⟩
            exact hinside gap hold.1 hold.2 hmore
          rw [if_pos hmore]
          obtain ⟨hsound, hcovers⟩ := sound_carved _ h hpos hgap hfit
            (hlists.link (fun hmem ↦ hinside _ hmem.1 hmem.2 hmore rfl) hlink)
            (iff_of_false (by simp [link]) (List.ne_nil_of_mem ((hlink _).mpr (.inl rfl)))) fun gap ↦ by
              rw [hlink]
              exact or_comm.trans (or_congr_right (by simp [hmore]))
          exact ⟨hsound, hbestFit, hcovers⟩
        · rw [if_neg hmore]
          have hcarved : Carved tracker.gaps {gap | gap ∈ (tracker.mByStart.erase pos).entries} pos rangeSize
              size := by
            intro gap
            refine (herased gap).trans (or_iff_left fun hsome ↦ ?_).symm
            omega
          have hlists' : Lists {gap | gap ∈ (tracker.mByStart.erase pos).entries} mBySize := by
            have hsame : {gap | gap ∈ (tracker.mByStart.erase pos).entries} =
                {gap | gap ∈ tracker.gaps ∧ gap ≠ (pos, rangeSize)} := Set.ext herased
            rw [hsame]
            exact hlists
          dsimp only
          split_ifs with hnone
          · obtain ⟨hsound, hcovers⟩ := sound_carved ⟨tracker.mByStart.erase pos, mBySize, true⟩ h hpos
              hgap hfit hlists' (iff_of_true rfl hnone) hcarved
            exact ⟨hsound, hbestFit, hcovers⟩
          · obtain ⟨hsound, hcovers⟩ := sound_carved ⟨tracker.mByStart.erase pos, mBySize, false⟩ h hpos
              hgap hfit hlists' (iff_of_false Bool.false_ne_true hnone) hcarved
            exact ⟨hsound, hbestFit, hcovers⟩

/-! ## Counting the free bytes -/

/-- The two indices list the same gaps. -/
theorem perm_gapsBySize (h : Lists tracker.gaps tracker.mBySize) :
    tracker.mByStart.entries.Perm (gapsBySize tracker.mBySize) := by
  have hnodup : (gapsBySize tracker.mBySize).Nodup := by
    refine List.nodup_flatMap.mpr ⟨fun entry hentry ↦ ?_, ?_⟩
    · exact (h.nodup entry hentry).map fun first second heq ↦ (Prod.mk.inj heq).1
    · refine tracker.mBySize.ordered.imp fun hlt gap hfirst hsecond ↦ ?_
      obtain ⟨_, -, rfl⟩ := List.mem_map.mp hfirst
      obtain ⟨_, -, heq⟩ := List.mem_map.mp hsecond
      exact hlt.ne (Prod.mk.inj heq).2.symm
  refine (List.perm_ext_iff_of_nodup tracker.mByStart.nodup_entries hnodup).mpr fun gap ↦ ?_
  refine (h.mem_iff gap.1 gap.2).trans ?_
  simp only [gapsBySize, List.mem_flatMap, List.mem_map]
  constructor
  · rintro ⟨starts, hlist, hstart⟩
    exact ⟨_, hlist, gap.1, hstart, rfl⟩
  · rintro ⟨entry, hentry, start, hstart, rfl⟩
    exact ⟨entry.2, hentry, hstart⟩

/-- Sums that stay below 2^63 are right. -/
theorem foldl_toInt64 (entries : List (ℤ × List ℤ)) {sum : ℤ} (hsum : 0 ≤ sum)
    (hpos : ∀ entry ∈ entries, 0 ≤ entry.1)
    (hlt : sum + (entries.map fun entry ↦ entry.1 * (entry.2.length : ℤ)).sum < 2 ^ 63) :
    entries.foldl (fun prev pair ↦ toInt64 (prev + pair.1 * pair.2.length)) sum =
      sum + (entries.map fun entry ↦ entry.1 * (entry.2.length : ℤ)).sum := by
  induction entries generalizing sum with
  | nil => simp
  | cons entry entries ih =>
    have hfirst : 0 ≤ entry.1 * (entry.2.length : ℤ) := Int.mul_nonneg (hpos entry (.head _)) (by omega)
    have hrest : 0 ≤ (entries.map fun entry ↦ entry.1 * (entry.2.length : ℤ)).sum := by
      refine List.sum_nonneg fun value hvalue ↦ ?_
      obtain ⟨other, hother, rfl⟩ := List.mem_map.mp hvalue
      exact Int.mul_nonneg (hpos other (.tail _ hother)) (by omega)
    rw [List.map_cons, List.sum_cons] at hlt ⊢
    have hexact : toInt64 (sum + entry.1 * entry.2.length) = sum + entry.1 * entry.2.length := by
      unfold toInt64
      apply Int.bmod_eq_of_le <;> omega
    rw [List.foldl_cons, hexact, ih (by omega) (fun other hother ↦ hpos other (.tail _ hother)) (by omega)]
    omega

theorem sum_gapsBySize (mBySize : OrderedMap ℤ (List ℤ)) :
    ((gapsBySize mBySize).map Prod.snd).sum =
      (mBySize.entries.map fun entry ↦ entry.1 * (entry.2.length : ℤ)).sum := by
  unfold gapsBySize
  induction mBySize.entries with
  | nil => rfl
  | cons entry entries ih =>
    simp [List.flatMap_cons, ih, Function.comp_def, mul_comm]

/-- As long as there are fewer than 2^63 free bytes, the wasted space is their number. -/
theorem wastedSpace_eq (h : Sound tracker) (hlt : ((points tracker.mByStart.entries).card : ℤ) < 2 ^ 63) :
    tracker.wastedSpace = (points tracker.mByStart.entries).card := by
  have hcard := card_points tracker.mByStart.nodup_entries h.apart
  unfold wastedSpace
  split_ifs with hempty
  · rw [h.empty_iff.mp hempty]
    rfl
  · have hsum := ((perm_gapsBySize h.lists).map Prod.snd).sum_eq
    rw [sum_gapsBySize] at hsum
    have hpos : ∀ entry ∈ tracker.mBySize.entries, 0 ≤ entry.1 := by
      intro entry hentry
      obtain ⟨start, hstart⟩ := List.exists_mem_of_ne_nil _ (h.lists.ne_nil entry hentry)
      exact (h.apart.size_pos _ ((h.lists.mem_iff start entry.1).mpr ⟨entry.2, hentry, hstart⟩)).le
    rw [wastedSpaceImpl, foldl_toInt64 _ le_rfl hpos (by omega)]
    omega

end GapIndices

/-! ## Runs -/

inductive GapCall where
  | add (start size : ℤ)
  | allocate (size : ℤ)

/-- What an `allocate` found and answered. -/
structure GapAnswer where
  gaps : List (ℤ × ℤ)
  size : ℤ
  pos : Option ℤ

/-- A tracker with the bytes that should be free and the answers that it has given. -/
structure GapSession where
  tracker : GapIndices
  free : Finset ℤ
  answers : List GapAnswer

namespace GapSession

open GapIndices

def start : GapSession := ⟨.new, ∅, []⟩

/-- Only ranges are added that are disjoint from the gaps, and only positive sizes are allocated. -/
def step : GapCall → GapSession → Option GapSession
  | .add start size, s =>
    if Disjoint (points s.tracker.mByStart.entries) (Finset.Ico start (start + size)) then
      some { s with tracker := s.tracker.add start size, free := s.free ∪ Finset.Ico start (start + size) }
    else none
  | .allocate size, s =>
    if 0 < size then
      some {
        tracker := (s.tracker.allocate size).2
        free := (s.tracker.allocate size).1.elim s.free fun pos ↦ s.free \ Finset.Ico pos (pos + size)
        answers := s.answers ++ [⟨s.tracker.mByStart.entries, size, (s.tracker.allocate size).1⟩] }
    else none

/-- What a tracker promises. -/
structure Correct (s : GapSession) : Prop where
  sameGaps : s.tracker.mByStart.entries.Perm (gapsBySize s.tracker.mBySize)
  apart : Apart s.tracker.gaps
  free_eq : points s.tracker.mByStart.entries = s.free
  bestFit : ∀ answer ∈ s.answers, BestFit {gap | gap ∈ answer.gaps} answer.size answer.pos
  wasted : (s.free.card : ℤ) < 2 ^ 63 → s.tracker.wastedSpace = s.free.card
  empty_iff : s.tracker.mEmpty = true ↔ s.tracker.mByStart.entries = []

/-- The condition on a call. -/
def FitsCall : GapCall → GapSession → Prop
  | .add start size, s => 0 < size → s.tracker.Fits start size
  | .allocate _, _ => True

instance : ∀ call s, Decidable (FitsCall call s)
  | .add start size, s => inferInstanceAs (Decidable (0 < size →
      s.tracker.sizeBefore start + size + s.tracker.sizeAfter (start + size) < 2 ^ 31))
  | .allocate _, _ => isTrue trivial

structure Held (s : GapSession) : Prop where
  sound : Sound s.tracker
  free_eq : points s.tracker.mByStart.entries = s.free
  bestFit : ∀ answer ∈ s.answers, BestFit {gap | gap ∈ answer.gaps} answer.size answer.pos

variable {s next : GapSession} {call : GapCall}

theorem Held.correct (h : s.Held) : s.Correct where
  sameGaps := perm_gapsBySize h.sound.lists
  apart := h.sound.apart
  free_eq := h.free_eq
  bestFit := h.bestFit
  wasted hlt := by
    rw [← h.free_eq] at hlt ⊢
    exact wastedSpace_eq h.sound hlt
  empty_iff := h.sound.empty_iff

theorem held_start : start.Held where
  sound := by
    have hnone : (new.gaps : Set (ℤ × ℤ)) = ∅ := Set.ext fun gap ↦ by simp [gaps, new, empty]
    refine ⟨⟨fun start size ↦ ?_, by simp [start, new, empty], by simp [start, new, empty]⟩,
      ⟨?_, ?_, ?_⟩, iff_of_true rfl rfl⟩
    · simp [GapSession.start, gaps, new, empty]
    all_goals simp [GapSession.start, hnone]
  free_eq := rfl
  bestFit := by simp [start]

theorem held_step (h : s.Held) (hfits : FitsCall call s) (hstep : step call s = some next) : next.Held := by
  cases call with
  | add start size =>
    simp only [step] at hstep
    split_ifs at hstep with hdisjoint
    cases hstep
    unfold GapIndices.add
    split_ifs with hsize
    · refine ⟨h.sound, ?_, h.bestFit⟩
      rw [Finset.Ico_eq_empty (by omega), Finset.union_empty]
      exact h.free_eq
    · have hfree : Free s.tracker.gaps start size := by
        intro point hlow hhigh hcovers
        exact Finset.disjoint_left.mp hdisjoint (mem_points.mpr hcovers) (Finset.mem_Ico.mpr ⟨hlow, hhigh⟩)
      obtain ⟨hsound, hjoined⟩ := addLocked_spec h.sound (by omega) hfree (hfits (by omega))
      refine ⟨hsound, ?_, h.bestFit⟩
      ext point
      rw [mem_points, Finset.mem_union, ← h.free_eq, mem_points, Finset.mem_Ico]
      exact covers_joined h.sound.apart (by omega) (s.tracker.endsAt_sizeBefore start)
        (s.tracker.beginsAt_sizeAfter (start + size)) hjoined
  | allocate size =>
    simp only [step] at hstep
    split_ifs at hstep with hsize
    cases hstep
    obtain ⟨hsound, hbest, hcovers⟩ := allocate_spec h.sound hsize
    refine ⟨hsound, ?_, List.forall_mem_append.mpr ⟨h.bestFit, fun answer hanswer ↦ ?_⟩⟩
    swap
    · obtain rfl := List.mem_singleton.mp hanswer
      exact hbest
    ext point
    rw [mem_points]
    refine (hcovers point).trans ?_
    have hold : Covers s.tracker.gaps point ↔ point ∈ s.free := by
      rw [← h.free_eq]
      exact mem_points.symm
    cases hpos : (s.tracker.allocate size).1 with
    | none => simpa using hold
    | some pos => simpa [Finset.mem_Ico] using fun _ ↦ hold

/-- As long as no gap gets to 2^31 bytes, a tracker keeps its promises. -/
theorem correct_of_fits {calls : List GapCall} {last : GapSession} (hfits : Guarded step FitsCall start calls)
    (hrun : run step start calls = some last) : last.Correct :=
  (invariant_of_guarded Held (fun _ _ _ h hcall hstep ↦ held_step h hcall hstep) held_start hfits hrun).correct

/-- Two neighbours that are added one after the other. -/
theorem run_neighbours {size : ℤ} (hfirst : (GapIndices.new.add 0 size).mByStart.entries = [(0, size)]) :
    run step start [.add 0 size, .add size size] = some {
      tracker := (GapIndices.new.add 0 size).add size size
      free := ∅ ∪ Finset.Ico 0 (0 + size) ∪ Finset.Ico size (size + size)
      answers := [] } := by
  have hnone : Disjoint (points GapIndices.new.mByStart.entries) (Finset.Ico 0 (0 + size)) :=
    Finset.disjoint_left.mpr fun point hpoint ↦ by simp [points, new, empty] at hpoint
  have hbehind : Disjoint (points (GapIndices.new.add 0 size).mByStart.entries)
      (Finset.Ico size (size + size)) := by
    rw [hfirst]
    refine Finset.disjoint_left.mpr fun point hpoint hin ↦ ?_
    obtain ⟨gap, hgap, -, hhigh⟩ := mem_points.mp hpoint
    obtain rfl := List.mem_singleton.mp hgap
    have hlow := (Finset.mem_Ico.mp hin).1
    simp only at hhigh
    omega
  simp only [run_cons, run_nil, start, step, if_pos hnone, if_pos hbehind, Option.bind_some]

theorem not_correct_of_neg {start size : ℤ} (hgaps : s.tracker.mByStart.entries = [(start, size)])
    (hneg : size < 0) : ¬ s.Correct := by
  intro hcorrect
  have hmem : (start, size) ∈ s.tracker.gaps := by simp [gaps, hgaps]
  exact (hcorrect.apart.size_pos _ hmem).not_gt hneg

/-- Two halves of 2^31 bytes become one gap whose size is negative. -/
theorem overflown_gap :
    ∃ last, run step start [.add 0 (2 ^ 30), .add (2 ^ 30) (2 ^ 30)] = some last ∧
      last.tracker.mByStart.entries = [(0, -2 ^ 31)] ∧ ¬ last.Correct := by
  have hhalf : (GapIndices.new.add 0 (2 ^ 30)).mByStart.entries = [(0, 2 ^ 30)] := by decide +kernel
  have hwhole : ((GapIndices.new.add 0 (2 ^ 30)).add (2 ^ 30) (2 ^ 30)).mByStart.entries = [(0, -2 ^ 31)] := by
    decide +kernel
  exact ⟨_, run_neighbours hhalf, hwhole, not_correct_of_neg hwhole (by decide)⟩

/-- Gaps that are joined on both sides, cut and used up. -/
def mixedGaps : List GapCall :=
  [.add 100 10, .add 120 10, .add 0 5, .add 110 10, .allocate 4, .allocate 20, .allocate 10, .allocate 1]

theorem correct_mixedGaps :
    ∃ last, run step start mixedGaps = some last ∧
      last.answers.map GapAnswer.pos = [some 0, some 100, some 120, some 4] ∧ last.Correct := by
  have hrun : (run step start mixedGaps).map (fun last ↦ last.answers.map GapAnswer.pos) =
      some [some 0, some 100, some 120, some 4] := by
    decide +kernel
  obtain ⟨last, hlast, hanswers⟩ := Option.map_eq_some_iff.mp hrun
  exact ⟨last, hlast, hanswers, correct_of_fits (by decide +kernel) hlast⟩

end GapSession

end FdeEmugl.Snapshot

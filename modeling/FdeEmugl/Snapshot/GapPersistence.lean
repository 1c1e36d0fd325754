import FdeEmugl.Snapshot.GapFormat

/-!
# Saving and loading the gap trackers

A tracker that has been saved and loaded again has the same gaps and gives the same answers from then on,
and either class can read what the other has written. The counters of the loops are `int`s, so this takes
lists of fewer than 2^31 gaps.
-/

namespace FdeEmugl.Snapshot

open FdeEmugl.Stream IntervalSet Runs
open OrderedMap
open List (append_assoc append_nil flatMap_cons flatMap_nil)

/-! ## Loading into the two indices -/

namespace GapIndices

variable {tracker : GapIndices} {size : ℤ} {starts : List ℤ}

theorem eq_of_start {first second : ℤ × ℤ} (hfirst : first ∈ tracker.gaps) (hsecond : second ∈ tracker.gaps)
    (h : first.1 = second.1) : first = second := eq_of_key hfirst hsecond h

theorem mem_linkAll (hnodup : starts.Nodup)
    (hnew : ∀ start ∈ starts, ∀ gap ∈ tracker.mByStart.entries, gap.1 ≠ start) (gap : ℤ × ℤ) :
    gap ∈ (tracker.linkAll size starts).mByStart.entries ↔
      gap ∈ tracker.mByStart.entries ∨ gap.1 ∈ starts ∧ gap.2 = size := by
  induction starts generalizing tracker with
  | nil => simp [linkAll]
  | cons start starts ih =>
    obtain ⟨hnot, hnodup⟩ := List.nodup_cons.mp hnodup
    have hlink (gap : ℤ × ℤ) : gap ∈ (tracker.link start size).mByStart.entries ↔
        gap = (start, size) ∨ gap ∈ tracker.mByStart.entries := by
      refine (link_gaps tracker start size gap).trans (or_congr_right ?_)
      exact and_iff_left_of_imp fun hgap ↦ hnew start (.head starts) gap hgap
    have hrest := ih hnodup fun other hother gap hgap ↦ by
      obtain rfl | hold := (hlink gap).mp hgap
      · rintro rfl
        exact hnot hother
      · exact hnew other (.tail start hother) gap hold
    refine hrest.trans ?_
    rw [hlink, List.mem_cons, Prod.ext_iff]
    tauto

/-- The starts come to the end of the list of their size, which is the last one. -/
theorem linkAll_mBySize_of_last {done : List (ℤ × List ℤ)} {old : List ℤ}
    (hdone : ∀ entry ∈ done, entry.1 < size) (h : tracker.mBySize.entries = done ++ [(size, old)]) :
    (tracker.linkAll size starts).mBySize.entries = done ++ [(size, old ++ starts)] := by
  induction starts generalizing tracker old with
  | nil => rw [append_nil, ← h]; rfl
  | cons start starts ih =>
    have hfind : tracker.mBySize.find size = some old :=
      find_eq_some.mpr (h ▸ List.mem_append_right done (List.mem_singleton_self _))
    have hlink : (tracker.link start size).mBySize.entries = done ++ [(size, old ++ [start])] := by
      simp only [link, hfind, Option.getD_some]
      exact entries_put_last h hdone fun entry hentry ↦ by rw [List.mem_singleton.mp hentry]
    have hrest := ih hlink
    rwa [append_assoc] at hrest

theorem linkAll_mBySize (hold : ∀ entry ∈ tracker.mBySize.entries, entry.1 < size) (hne : starts ≠ []) :
    (tracker.linkAll size starts).mBySize.entries = tracker.mBySize.entries ++ [(size, starts)] := by
  obtain ⟨start, starts, rfl⟩ := List.exists_cons_of_ne_nil hne
  have hnone : tracker.mBySize.find size = none :=
    find_eq_none.mpr fun entry hentry ↦ (hold entry hentry).ne
  have hlink : (tracker.link start size).mBySize.entries = tracker.mBySize.entries ++ [(size, [start])] := by
    simp only [link, hnone, Option.getD_none, List.nil_append]
    exact entries_put_last (append_nil _).symm hold (by simp)
  exact linkAll_mBySize_of_last hold hlink

/-- The gaps that a list of sizes and starts speaks of. -/
def Listed (entries : List (ℤ × List ℤ)) (gap : ℤ × ℤ) : Prop := ∃ starts, (gap.2, starts) ∈ entries ∧ gap.1 ∈ starts

/-- Lists that come back one by one. -/
structure Loadable (entries : List (ℤ × List ℤ)) : Prop where
  ordered : entries.Pairwise fun first second ↦ first.1 < second.1
  ne_nil : ∀ entry ∈ entries, entry.2 ≠ []
  nodup : ∀ entry ∈ entries, entry.2.Nodup
  size_eq : ∀ start size size', Listed entries (start, size) → Listed entries (start, size') → size = size'
  isInt : ∀ entry ∈ entries, IsInt entry.1
  isInt64 : ∀ entry ∈ entries, ∀ start ∈ entry.2, IsInt64 start
  savable : ∀ entry ∈ entries, Savable entry.2

theorem loadGroups_flatMap {done todo : List (ℤ × List ℤ)} (h : Loadable (done ++ todo))
    (hsizes : tracker.mBySize.entries = done) (hstarts : ∀ gap, gap ∈ tracker.mByStart.entries ↔ Listed done gap)
    (rest : List UInt8) :
    ∃ result, loadGroups todo.length tracker
        (todo.flatMap (fun entry ↦ saveGroup entry.1 entry.2) ++ rest) = (result, rest) ∧
      result.mBySize.entries = done ++ todo ∧
      ∀ gap, gap ∈ result.mByStart.entries ↔ Listed (done ++ todo) gap := by
  induction todo generalizing tracker done with
  | nil =>
    rw [append_nil]
    exact ⟨tracker, rfl, hsizes, hstarts⟩
  | cons entry todo ih =>
    obtain ⟨size, starts⟩ := entry
    have hmem : (size, starts) ∈ done ++ (size, starts) :: todo := List.mem_append_right done (.head todo)
    have hgroup := loadGroup_saveGroup (h.isInt _ hmem) (h.ne_nil _ hmem) (h.isInt64 _ hmem) (h.savable _ hmem)
      (todo.flatMap (fun entry ↦ saveGroup entry.1 entry.2) ++ rest)
    have hbefore : ∀ entry ∈ done, entry.1 < size := fun entry hentry ↦
      (List.pairwise_append.mp h.ordered).2.2 entry hentry _ (.head todo)
    have hsizes' := linkAll_mBySize (hsizes ▸ hbefore) (h.ne_nil _ hmem)
    have hnew : ∀ start ∈ starts, ∀ gap ∈ tracker.mByStart.entries, gap.1 ≠ start := by
      rintro start hstart ⟨start', size'⟩ hgap rfl
      obtain ⟨starts', hlist, hstart'⟩ := (hstarts _).mp hgap
      have hsame := h.size_eq start' size' size ⟨starts', List.mem_append_left _ hlist, hstart'⟩ ⟨starts, hmem, hstart⟩
      exact (hbefore _ hlist).ne hsame
    have hstarts' (gap : ℤ × ℤ) : gap ∈ (tracker.linkAll size starts).mByStart.entries ↔
        Listed (done ++ [(size, starts)]) gap := by
      rw [mem_linkAll (h.nodup _ hmem) hnew, hstarts]
      unfold Listed
      simp only [List.mem_append, List.mem_singleton, Prod.mk.injEq, or_and_right, exists_or]
      refine or_congr_right ⟨fun hgap ↦ ⟨starts, ⟨hgap.2, rfl⟩, hgap.1⟩, ?_⟩
      rintro ⟨_, ⟨hsize, rfl⟩, hstart⟩
      exact ⟨hstart, hsize⟩
    have happend : done ++ (size, starts) :: todo = done ++ [(size, starts)] ++ todo := by
      rw [append_assoc]
      rfl
    rw [happend] at h ⊢
    obtain ⟨result, hload, hresult⟩ := ih h (hsizes ▸ hsizes') hstarts'
    refine ⟨result, ?_, hresult⟩
    rw [flatMap_cons, append_assoc, List.length_cons, loadGroups, hgroup]
    exact hload

/-- A tracker comes back as it was. -/
theorem load_save (tracker fresh : GapIndices) (h : Loadable tracker.mBySize.entries)
    (hlists : Lists tracker.gaps tracker.mBySize) (hempty : tracker.mEmpty = true ↔ tracker.mByStart.entries = [])
    (hfew : tracker.mBySize.entries.length < 2 ^ 31) (rest : List UInt8) :
    fresh.load (tracker.save ++ rest) = (tracker, rest) := by
  have hcount : min (UInt32.ofNat tracker.mBySize.entries.length).toNat (2 ^ 31) =
      tracker.mBySize.entries.length := by
    rw [UInt32.toNat_ofNat_of_lt' (by rw [UInt32.size]; omega)]
    omega
  have hall : Loadable ([] ++ tracker.mBySize.entries) := h
  have hnothing : (⟨.empty, .empty, fresh.mEmpty⟩ : GapIndices).mBySize.entries = [] := rfl
  obtain ⟨result, hload, hsizes, hstarts⟩ :=
    loadGroups_flatMap hall hnothing (by simp [empty, Listed]) rest
  have hbySize : result.mBySize = tracker.mBySize := OrderedMap.ext hsizes
  have hbyStart : result.mByStart = tracker.mByStart := eq_of_mem_iff fun gap ↦
    (hstarts gap).trans (hlists.mem_iff gap.1 gap.2).symm
  have hisEmpty : tracker.mByStart.entries.isEmpty = tracker.mEmpty := by
    rw [Bool.eq_iff_iff, List.isEmpty_iff, hempty]
  simp only [load, save, append_assoc, getBe32_putBe32, hcount, hload, hbySize, hbyStart, hisEmpty]

/-- The lists of a tracker whose indices belong together. -/
theorem loadable (tracker : GapIndices) (hlists : Lists tracker.gaps tracker.mBySize)
    (hints : ∀ gap ∈ tracker.gaps, IsInt gap.2 ∧ IsInt64 gap.1)
    (hsavable : ∀ entry ∈ tracker.mBySize.entries, Savable entry.2) : Loadable tracker.mBySize.entries where
  ordered := tracker.mBySize.ordered
  ne_nil := hlists.ne_nil
  nodup := hlists.nodup
  size_eq start size size' hlisted hlisted' := by
    have hgap := (hlists.mem_iff start size).mpr hlisted
    have hgap' := (hlists.mem_iff start size').mpr hlisted'
    exact congrArg Prod.snd (eq_of_start hgap hgap' rfl)
  isInt entry hentry := by
    obtain ⟨start, hstart⟩ := List.exists_mem_of_ne_nil _ (hlists.ne_nil entry hentry)
    exact (hints _ ((hlists.mem_iff start entry.1).mpr ⟨entry.2, hentry, hstart⟩)).1
  isInt64 entry hentry start hstart :=
    (hints _ ((hlists.mem_iff start entry.1).mpr ⟨entry.2, hentry, hstart⟩)).2
  savable := hsavable

end GapIndices

/-! ## Reading what the other class has written -/

section Cross

open GapIndices

/-- Starts of one size that a `GenericGapTracker` reads. -/
theorem load_saveGroup (fresh : GapIndices) {size : ℤ} {starts : List ℤ} (hsize : IsInt size)
    (hstarts : ∀ start ∈ starts, IsInt64 start) (hnodup : starts.Nodup) (hne : starts ≠ []) (hsavable : Savable starts)
    (rest : List UInt8) :
    ∃ result, fresh.load (putBe32 1 ++ saveGroup size starts ++ rest) = (result, rest) ∧
      result.mByStart.entries.Perm (starts.map fun start ↦ (start, size)) ∧
      result.mBySize.entries = [(size, starts)] := by
  have hgroup := loadGroup_saveGroup hsize hne hstarts hsavable rest
  have hcount : min (1 : UInt32).toNat (2 ^ 31) = 0 + 1 := rfl
  have hload : fresh.load (putBe32 1 ++ saveGroup size starts ++ rest) =
      ({ linkAll size starts ⟨.empty, .empty, fresh.mEmpty⟩ with
          mEmpty := (linkAll size starts ⟨.empty, .empty, fresh.mEmpty⟩).mByStart.entries.isEmpty }, rest) := by
    simp only [GapIndices.load, append_assoc, getBe32_putBe32, hcount, loadGroups, hgroup]
  refine ⟨_, hload, ?_, linkAll_mBySize (by simp [empty]) hne⟩
  refine (List.perm_ext_iff_of_nodup (nodup_entries _)
    (hnodup.map fun first second heq ↦ (Prod.mk.inj heq).1)).mpr fun gap ↦ ?_
  refine (mem_linkAll hnodup (by simp [empty]) gap).trans ?_
  simp [empty, Prod.ext_iff, eq_comm]

/-- The gaps of one size that a `OneSizeGapTracker` reads. -/
theorem oneSize_load_save (tracker : GapIndices) {size : ℤ} (h : Loadable tracker.mBySize.entries)
    (hlists : Lists tracker.gaps tracker.mBySize) (hone : ∀ gap ∈ tracker.gaps, gap.2 = size)
    (rest : List UInt8) :
    (OneSizeGapTracker.new.load (tracker.save ++ rest)).1.gaps.Perm tracker.mByStart.entries := by
  have hperm := (perm_gapsBySize hlists).symm
  have hkeys : ∀ entry ∈ tracker.mBySize.entries, entry.1 = size := by
    intro entry hentry
    obtain ⟨start, hstart⟩ := List.exists_mem_of_ne_nil _ (hlists.ne_nil entry hentry)
    exact hone _ ((hlists.mem_iff start entry.1).mpr ⟨entry.2, hentry, hstart⟩)
  unfold gapsBySize at hperm
  unfold GapIndices.save
  cases hentries : tracker.mBySize.entries with
  | nil =>
    rw [hentries] at hperm
    have hzero : ¬ (UInt32.ofNat 0).toNat > 0 := by decide
    simp only [OneSizeGapTracker.load, List.length_nil, flatMap_nil, append_nil, getBe32_putBe32,
      if_neg hzero]
    exact hperm
  | cons entry others =>
    have hnone : others = [] := by
      refine List.eq_nil_iff_forall_not_mem.mpr fun other hother ↦ ?_
      have hordered := hentries ▸ h.ordered
      have hlt := (List.pairwise_cons.mp hordered).1 other hother
      rw [hkeys entry (hentries ▸ .head others), hkeys other (hentries ▸ .tail entry hother)] at hlt
      exact lt_irrefl _ hlt
    subst hnone
    have hmem : entry ∈ tracker.mBySize.entries := hentries ▸ .head []
    have hgroup := loadGroup_saveGroup (h.isInt _ hmem) (h.ne_nil _ hmem) (h.isInt64 _ hmem) (h.savable _ hmem) rest
    have hcount : (UInt32.ofNat (0 + 1)).toNat > 0 := by decide
    rw [hentries, flatMap_cons, flatMap_nil, append_nil] at hperm
    simp only [OneSizeGapTracker.load, List.length_cons, List.length_nil, flatMap_cons, flatMap_nil,
      append_nil, append_assoc, getBe32_putBe32, if_pos hcount, hgroup]
    exact hperm

end Cross

/-! ## What persistence asks for -/

/-- The virtual functions of a tracker, and its gaps. -/
structure TrackerClass (Tracker : Type) where
  new : Tracker
  load : Tracker → List UInt8 → Tracker × List UInt8
  save : Tracker → List UInt8
  allocate : ℤ → Tracker → Option ℤ × Tracker
  add : ℤ → ℤ → Tracker → Tracker
  gaps : Tracker → List (ℤ × ℤ)

def genericGapTracker : TrackerClass GapIndices where
  new := .new
  load := GapIndices.load
  save := GapIndices.save
  allocate := GapIndices.allocate
  add := GapIndices.add
  gaps tracker := tracker.mByStart.entries

def oneSizeGapTracker : TrackerClass OneSizeGapTracker where
  new := .new
  load := OneSizeGapTracker.load
  save := OneSizeGapTracker.save
  allocate := OneSizeGapTracker.allocate
  add := OneSizeGapTracker.add
  gaps := OneSizeGapTracker.gaps

namespace TrackerClass

variable {Tracker Other : Type}

/-- The tracker after a call. -/
def apply (c : TrackerClass Tracker) : GapCall → Tracker → Option Tracker
  | .add start size, tracker => some (c.add start size tracker)
  | .allocate size, tracker => some (c.allocate size tracker).2

/-- What the calls answer one after the other. -/
def answers (c : TrackerClass Tracker) : List GapCall → Tracker → List (Option ℤ)
  | [], _ => []
  | .add start size :: calls, tracker => c.answers calls (c.add start size tracker)
  | .allocate size :: calls, tracker => (c.allocate size tracker).1 :: c.answers calls (c.allocate size tracker).2

/-- The bytes of a tracker, whatever follows them, are read by a fresh one of the class. It has the same gaps
and goes on like the tracker that was saved. -/
structure Persists (c : TrackerClass Tracker) (guard : GapCall → Tracker → Prop) (tracker : Tracker) : Prop where
  consumed : ∀ rest, (c.load c.new (c.save tracker ++ rest)).2 = rest
  gaps : ∀ rest, (c.gaps (c.load c.new (c.save tracker ++ rest)).1).Perm (c.gaps tracker)
  answers : ∀ rest calls, Guarded c.apply guard tracker calls →
    c.answers calls (c.load c.new (c.save tracker ++ rest)).1 = c.answers calls tracker

/-- A fresh tracker of another class reads the same gaps. -/
def LoadsAs (c : TrackerClass Tracker) (other : TrackerClass Other) (tracker : Tracker) : Prop :=
  ∀ rest, (other.gaps (other.load other.new (c.save tracker ++ rest)).1).Perm (c.gaps tracker)

/-- Trackers that stay alike whatever is called give the same answers. -/
theorem answers_congr (c : TrackerClass Tracker) {guard : GapCall → Tracker → Prop} (Alike : Tracker → Tracker → Prop)
    (hadd : ∀ first second start size, Alike first second → guard (.add start size) first →
      Alike (c.add start size first) (c.add start size second))
    (hallocate : ∀ first second size, Alike first second → guard (.allocate size) first →
      (c.allocate size first).1 = (c.allocate size second).1 ∧
        Alike (c.allocate size first).2 (c.allocate size second).2)
    {calls : List GapCall} {first second : Tracker} (h : Alike first second)
    (hguard : Guarded c.apply guard first calls) : c.answers calls second = c.answers calls first := by
  induction calls generalizing first second with
  | nil => rfl
  | cons call calls ih =>
    cases call with
    | add start size => exact ih (hadd _ _ _ _ h hguard.1) (hguard.2 _ rfl)
    | allocate size =>
      obtain ⟨hsame, halike⟩ := hallocate _ _ _ h hguard.1
      rw [answers, answers, hsame, ih halike (hguard.2 _ rfl)]

end TrackerClass

/-! ## `OneSizeGapTracker` -/

namespace OneSizeGapTracker

variable {tracker first second next : OneSizeGapTracker} {start size : ℤ}

/-- The cursor is in the vector, and the flag knows whether it is at the end. -/
structure WellPlaced (tracker : OneSizeGapTracker) : Prop where
  nonneg : 0 ≤ tracker.mCurrentPos
  le_length : tracker.mCurrentPos ≤ tracker.mGapStarts.length
  empty_iff : tracker.mEmpty = true ↔ tracker.mCurrentPos = tracker.mGapStarts.length

theorem WellPlaced.remaining_eq_nil (h : tracker.WellPlaced) : tracker.remaining = [] ↔ tracker.mEmpty = true := by
  have hnonneg := h.nonneg
  have hle := h.le_length
  rw [remaining, List.drop_eq_nil_iff, h.empty_iff]
  omega

theorem wellPlaced_cleared (size : ℤ) : (⟨[], 0, size, true⟩ : OneSizeGapTracker).WellPlaced :=
  ⟨le_rfl, le_rfl, iff_of_true rfl rfl⟩

theorem WellPlaced.add (h : tracker.WellPlaced) : (tracker.add start size).WellPlaced ∧
    (tracker.add start size).remaining = tracker.remaining ++ [start] := by
  have hnonneg := h.nonneg
  have hle := h.le_length
  have hlength : (tracker.mGapStarts ++ [start]).length = tracker.mGapStarts.length + 1 := List.length_append
  have hdrop : (tracker.mGapStarts ++ [start]).drop tracker.mCurrentPos.toNat = tracker.remaining ++ [start] :=
    List.drop_append_of_le_length (by omega)
  refine ⟨⟨hnonneg, ?_, iff_of_false ?_ ?_⟩, hdrop⟩
  · change tracker.mCurrentPos ≤ ((tracker.mGapStarts ++ [start]).length : ℤ)
    omega
  · simp only [OneSizeGapTracker.add]
    split_ifs with hend
    · decide
    · rwa [h.empty_iff]
  · change tracker.mCurrentPos ≠ ((tracker.mGapStarts ++ [start]).length : ℤ)
    omega

/-- `mSize` is that of the first gap or of the first allocation. -/
def sizeOr (tracker : OneSizeGapTracker) (size : ℤ) : ℤ := if tracker.mSize = 0 then size else tracker.mSize

theorem WellPlaced.allocate_of_nil (h : tracker.WellPlaced) (hnone : tracker.remaining = []) :
    tracker.allocate size = (none, tracker) := by
  rw [OneSizeGapTracker.allocate, if_pos (h.remaining_eq_nil.mp hnone)]

/-- The first of the remaining starts is handed out, as long as the cursor is an `int32_t`. -/
theorem WellPlaced.allocate_of_cons {rest : List ℤ} (h : tracker.WellPlaced)
    (hremaining : tracker.remaining = start :: rest) (hfit : tracker.mCurrentPos < 2 ^ 31 - 1) :
    tracker.allocate size = (some start,
      if rest = [] then ⟨[], 0, tracker.sizeOr size, true⟩
      else { tracker with mCurrentPos := tracker.mCurrentPos + 1, mSize := tracker.sizeOr size }) := by
  have hnonneg := h.nonneg
  have hsome : ¬ tracker.mEmpty = true := by
    rw [← h.remaining_eq_nil, hremaining]
    exact List.cons_ne_nil start rest
  have hlength : tracker.mGapStarts.length = tracker.mCurrentPos.toNat + (rest.length + 1) := by
    have hdrop : (tracker.mGapStarts.drop tracker.mCurrentPos.toNat).length = rest.length + 1 :=
      congrArg List.length hremaining
    rw [List.length_drop] at hdrop
    omega
  have hinside : tracker.mCurrentPos ≠ tracker.mGapStarts.length := fun hend ↦ hsome (h.empty_iff.mpr hend)
  have hfirst : tracker.mGapStarts.getD tracker.mCurrentPos.toNat 0 = start := by
    have hhead : (tracker.mGapStarts.drop tracker.mCurrentPos.toNat)[0]? = some start := by
      have hremaining' := hremaining
      unfold remaining at hremaining'
      rw [hremaining']
      rfl
    rw [List.getElem?_drop, Nat.add_zero] at hhead
    rw [List.getD_eq_getElem?_getD, hhead]
    rfl
  have hnext : toInt (tracker.mCurrentPos + 1) = tracker.mCurrentPos + 1 := toInt_eq (by omega) (by omega)
  have hlast : tracker.mCurrentPos + 1 = tracker.mGapStarts.length ↔ rest = [] := by
    rw [← List.length_eq_zero_iff]
    omega
  simp only [OneSizeGapTracker.allocate, if_neg hsome, if_neg hinside, hfirst, hnext, hlast]
  by_cases hnone : rest = []
  · rw [if_pos hnone, if_pos hnone]
    rfl
  · rw [if_neg hnone, if_neg hnone]
    rfl

theorem WellPlaced.allocate (h : tracker.WellPlaced) (hfit : tracker.mCurrentPos < 2 ^ 31 - 1) :
    (tracker.allocate size).2.WellPlaced ∧ (tracker.allocate size).2.remaining = tracker.remaining.tail := by
  have hnonneg := h.nonneg
  have hle := h.le_length
  cases hremaining : tracker.remaining with
  | nil =>
    rw [h.allocate_of_nil hremaining]
    exact ⟨h, hremaining⟩
  | cons start rest =>
    rw [h.allocate_of_cons hremaining hfit]
    have hdrop : tracker.mGapStarts.drop (tracker.mCurrentPos + 1).toNat = rest := by
      have htail := congrArg List.tail hremaining
      rw [remaining, List.tail_drop] at htail
      rwa [Int.toNat_add hnonneg (by decide)]
    dsimp only
    split_ifs with hnone
    · subst hnone
      exact ⟨wellPlaced_cleared _, rfl⟩
    · have hlength := congrArg List.length hdrop
      rw [List.length_drop] at hlength
      have hmore := List.length_pos_iff.mpr hnone
      have hsome : ¬ tracker.mEmpty = true := by
        rw [← h.remaining_eq_nil, hremaining]
        exact List.cons_ne_nil start rest
      exact ⟨⟨by dsimp only; omega, by dsimp only; omega, iff_of_false hsome (by dsimp only; omega)⟩, hdrop⟩

/-- Trackers with the same gaps left. -/
structure Alike (first second : OneSizeGapTracker) : Prop where
  wellPlaced : first.WellPlaced
  wellPlaced' : second.WellPlaced
  remaining : first.remaining = second.remaining
  cursor : second.mCurrentPos ≤ first.mCurrentPos

theorem Alike.add (h : Alike first second) (start size : ℤ) : Alike (first.add start size) (second.add start size) where
  wellPlaced := h.wellPlaced.add.1
  wellPlaced' := h.wellPlaced'.add.1
  remaining := by rw [h.wellPlaced.add.2, h.wellPlaced'.add.2, h.remaining]
  cursor := h.cursor

theorem Alike.allocate (h : Alike first second) (size : ℤ) (hfit : first.mCurrentPos < 2 ^ 31 - 1) :
    (first.allocate size).1 = (second.allocate size).1 ∧ Alike (first.allocate size).2 (second.allocate size).2 := by
  have hfit' : second.mCurrentPos < 2 ^ 31 - 1 := h.cursor.trans_lt hfit
  have hnext : (first.allocate size).2.remaining = (second.allocate size).2.remaining := by
    rw [(h.wellPlaced.allocate hfit).2, (h.wellPlaced'.allocate hfit').2, h.remaining]
  suffices hrest : (first.allocate size).1 = (second.allocate size).1 ∧
      (second.allocate size).2.mCurrentPos ≤ (first.allocate size).2.mCurrentPos from
    ⟨hrest.1, (h.wellPlaced.allocate hfit).1, (h.wellPlaced'.allocate hfit').1, hnext, hrest.2⟩
  cases hremaining : first.remaining with
  | nil =>
    rw [h.wellPlaced.allocate_of_nil hremaining, h.wellPlaced'.allocate_of_nil (h.remaining ▸ hremaining)]
    exact ⟨rfl, h.cursor⟩
  | cons start rest =>
    rw [h.wellPlaced.allocate_of_cons hremaining hfit,
      h.wellPlaced'.allocate_of_cons (h.remaining ▸ hremaining) hfit']
    refine ⟨rfl, ?_⟩
    dsimp only
    split_ifs
    · exact le_rfl
    · exact add_le_add_left h.cursor 1

/-- The gap that is added is not there yet. -/
def step : GapCall → OneSizeGapTracker → Option OneSizeGapTracker
  | .add start size, tracker =>
    if (IsInt size ∧ IsInt64 start) ∧ start ∉ tracker.remaining then some (tracker.add start size) else none
  | .allocate size, tracker => if IsInt size then some (tracker.allocate size).2 else none

/-- The condition on a call: the cursor stays an `int32_t`. -/
def FitsCall : GapCall → OneSizeGapTracker → Prop
  | .add _ _, _ => True
  | .allocate _, tracker => tracker.mCurrentPos < 2 ^ 31 - 1

instance : ∀ call tracker, Decidable (FitsCall call tracker)
  | .add _ _, _ => isTrue trivial
  | .allocate _, tracker => inferInstanceAs (Decidable (tracker.mCurrentPos < 2 ^ 31 - 1))

structure Held (tracker : OneSizeGapTracker) : Prop where
  wellPlaced : tracker.WellPlaced
  isInt : IsInt tracker.mSize
  isInt64 : ∀ start ∈ tracker.remaining, IsInt64 start
  nodup : tracker.remaining.Nodup

theorem isInt_sizeOr (h : IsInt tracker.mSize) (hsize : IsInt size) : IsInt (tracker.sizeOr size) := by
  unfold sizeOr
  split_ifs
  · exact hsize
  · exact h

theorem isInt_mSize_allocate (h : tracker.Held) (hsize : IsInt size) (hfit : tracker.mCurrentPos < 2 ^ 31 - 1) :
    IsInt (tracker.allocate size).2.mSize := by
  cases hremaining : tracker.remaining with
  | nil =>
    rw [h.wellPlaced.allocate_of_nil hremaining]
    exact h.isInt
  | cons start rest =>
    rw [h.wellPlaced.allocate_of_cons hremaining hfit]
    dsimp only
    split_ifs
    · exact isInt_sizeOr h.isInt hsize
    · exact isInt_sizeOr h.isInt hsize

theorem held_step {call : GapCall} (h : tracker.Held) (hfits : FitsCall call tracker)
    (hstep : step call tracker = some next) : next.Held := by
  cases call with
  | add start size =>
    simp only [step] at hstep
    split_ifs at hstep with hgap
    obtain ⟨⟨hsize, hstart⟩, hnew⟩ := hgap
    cases hstep
    obtain ⟨hplaced, hremaining⟩ : (tracker.add start size).WellPlaced ∧ _ := h.wellPlaced.add
    refine ⟨hplaced, isInt_sizeOr h.isInt hsize, ?_, ?_⟩
    · rw [hremaining]
      exact List.forall_mem_append.mpr ⟨h.isInt64, List.forall_mem_singleton.mpr hstart⟩
    · rw [hremaining]
      refine List.nodup_append.mpr ⟨h.nodup, List.nodup_singleton start, fun other hother last hlast heq ↦ ?_⟩
      exact hnew ((heq.trans (List.mem_singleton.mp hlast)) ▸ hother)
  | allocate size =>
    simp only [step] at hstep
    split_ifs at hstep with hsize
    cases hstep
    obtain ⟨hplaced, hremaining⟩ : (tracker.allocate size).2.WellPlaced ∧ _ := h.wellPlaced.allocate hfits
    refine ⟨hplaced, isInt_mSize_allocate h hsize hfits, ?_, ?_⟩
    · rw [hremaining]
      exact fun start hstart ↦ h.isInt64 start (List.mem_of_mem_tail hstart)
    · rw [hremaining]
      exact h.nodup.tail

theorem held_new : new.Held :=
  ⟨wellPlaced_cleared 0, ⟨by decide, by decide⟩, by simp [remaining, new], by simp [remaining, new]⟩

section

variable (h : tracker.Held) (hsavable : Savable tracker.remaining)
include h hsavable

/-- What a fresh tracker makes of the bytes. -/
theorem load_save (rest : List UInt8) :
    ∃ mSize, new.load (tracker.save ++ rest) = (⟨tracker.remaining, 0, mSize, tracker.remaining.isEmpty⟩, rest) ∧
      (tracker.remaining ≠ [] → mSize = tracker.mSize) := by
  unfold save
  split_ifs with hempty
  · have hnone := h.wellPlaced.remaining_eq_nil.mpr hempty
    have hzero : ¬ (0 : UInt32).toNat > 0 := by decide
    refine ⟨0, ?_, fun hsome ↦ absurd hnone hsome⟩
    rw [load, getBe32_putBe32]
    simp only [if_neg hzero, hnone]
    rfl
  · have hsome : tracker.remaining ≠ [] := fun hnone ↦ hempty (h.wellPlaced.remaining_eq_nil.mp hnone)
    have hone : (1 : UInt32).toNat > 0 := by decide
    have hgroup := loadGroup_saveGroup h.isInt hsome h.isInt64 hsavable rest
    refine ⟨tracker.mSize, ?_, fun _ ↦ rfl⟩
    rw [load, append_assoc, getBe32_putBe32]
    simp only [if_pos hone, hgroup]

theorem Held.persists : oneSizeGapTracker.Persists FitsCall tracker := by
  have hload := load_save h hsavable
  refine ⟨fun rest ↦ ?_, fun rest ↦ ?_, fun rest calls hcalls ↦ ?_⟩
  · obtain ⟨mSize, hload, -⟩ := hload rest
    exact congrArg Prod.snd hload
  · obtain ⟨mSize, hload, hsize⟩ := hload rest
    have hgaps : oneSizeGapTracker.gaps (oneSizeGapTracker.load oneSizeGapTracker.new
        (oneSizeGapTracker.save tracker ++ rest)).1 = tracker.remaining.map fun start ↦ (start, mSize) :=
      congrArg gaps (congrArg Prod.fst hload)
    rw [hgaps]
    refine List.Perm.of_eq (List.map_congr_left fun start hstart ↦ ?_)
    rw [hsize (List.ne_nil_of_mem hstart)]
  · obtain ⟨mSize, hload, -⟩ := hload rest
    have halike : Alike tracker (new.load (tracker.save ++ rest)).1 := by
      rw [hload]
      refine ⟨h.wellPlaced, ⟨le_rfl, by simp, ?_⟩, rfl, h.wellPlaced.nonneg⟩
      rw [List.isEmpty_iff, ← List.length_eq_zero_iff]
      dsimp only
      omega
    exact oneSizeGapTracker.answers_congr Alike (fun _ _ start size halike _ ↦ halike.add start size)
      (fun _ _ size halike hfit ↦ halike.allocate size hfit) halike hcalls

/-- A `GenericGapTracker` reads the same gaps into both of its indices. -/
theorem Held.loadsAs : oneSizeGapTracker.LoadsAs genericGapTracker tracker ∧
      ∀ rest, (GapIndices.gapsBySize (GapIndices.new.load (tracker.save ++ rest)).1.mBySize).Perm tracker.gaps := by
  suffices hload : ∀ rest, (GapIndices.new.load (tracker.save ++ rest)).1.mByStart.entries.Perm tracker.gaps ∧
      (GapIndices.gapsBySize (GapIndices.new.load (tracker.save ++ rest)).1.mBySize).Perm tracker.gaps from
    ⟨fun rest ↦ (hload rest).1, fun rest ↦ (hload rest).2⟩
  intro rest
  by_cases hnone : tracker.remaining = []
  · have hgaps : tracker.gaps = [] := by rw [gaps, hnone]; rfl
    rw [save, if_pos (h.wellPlaced.remaining_eq_nil.mp hnone), hgaps, GapIndices.load, getBe32_putBe32]
    exact ⟨.refl _, .refl _⟩
  · have hempty : ¬ tracker.mEmpty = true := fun hempty ↦ hnone (h.wellPlaced.remaining_eq_nil.mpr hempty)
    obtain ⟨result, hload, hstarts, hsizes⟩ :=
      load_saveGroup .new h.isInt h.isInt64 h.nodup hnone hsavable rest
    rw [save, if_neg hempty, hload]
    refine ⟨hstarts, ?_⟩
    rw [GapIndices.gapsBySize, hsizes, flatMap_cons, flatMap_nil, append_nil]
    exact .refl _

end

end OneSizeGapTracker

/-! ## `GenericGapTracker` -/

namespace GapIndices

variable {tracker : GapIndices} {free : Finset ℤ} {start size : ℤ}

/-- An interval that no start of another one is in, and that does not start in another one. -/
def Beside (gaps : Set (ℤ × ℤ)) (start size : ℤ) : Prop :=
  ∀ gap ∈ gaps, (start < gap.1 → start + size ≤ gap.1) ∧ (gap.1 < start → gap.1 + gap.2 ≤ start)

/-- What is known of the gaps among the free bytes even after a size has overflown. -/
structure Placed (tracker : GapIndices) (free : Finset ℤ) : Prop where
  lists : Lists tracker.gaps tracker.mBySize
  empty_iff : tracker.mEmpty = true ↔ tracker.mByStart.entries = []
  isInt : ∀ gap ∈ tracker.gaps, IsInt gap.2
  start_mem : ∀ gap ∈ tracker.gaps, gap.1 ∈ free
  mem_free : ∀ gap ∈ tracker.gaps, ∀ point, gap.1 ≤ point → point < gap.1 + gap.2 → point ∈ free
  beside : ∀ gap ∈ tracker.gaps, Beside tracker.gaps gap.1 gap.2

/-- An interval that an `add` makes: what it covers was free or is added, and it is beside the other gaps. -/
structure Slot (gaps : Set (ℤ × ℤ)) (covered : ℤ → Prop) (start size : ℤ) : Prop where
  isInt : IsInt size
  covered : ∀ point, start ≤ point → point < start + size → covered point
  beside : Beside gaps start size

section

variable (h : Placed tracker free)
include h

theorem joinPrevious_slot (hpos : 0 < size) (hint : IsInt size)
    (hnew : ∀ point, start ≤ point → point < start + size → point ∉ free) :
    ∃ first joined mBySize, tracker.joinPrevious start size = (first, joined, { tracker with mBySize }) ∧
      Lists {gap | gap ∈ tracker.gaps ∧ gap.1 ≠ first} mBySize ∧
      (first ∈ free ∨ start ≤ first ∧ first < start + size) ∧
      Slot tracker.gaps (fun point ↦ point ∈ free ∨ start ≤ point ∧ point < start + size) first joined := by
  have hfresh : ∀ gap ∈ tracker.gaps, gap.1 ≠ start := fun gap hgap heq ↦
    hnew start le_rfl (by omega) (heq ▸ h.start_mem gap hgap)
  have hbehind : ∀ gap ∈ tracker.gaps, start < gap.1 → start + size ≤ gap.1 := by
    intro gap hgap hlt
    by_contra hinside
    exact hnew gap.1 hlt.le (by omega) (h.start_mem gap hgap)
  have hbefore : ∀ gap ∈ tracker.gaps, gap.1 < start → gap.1 + gap.2 ≤ start := by
    intro gap hgap hlt
    by_contra hinside
    exact hnew start le_rfl (by omega) (h.mem_free gap hgap start hlt.le (by omega))
  have hkeep : Lists {gap | gap ∈ tracker.gaps ∧ gap.1 ≠ start} tracker.mBySize := by
    have hall : {gap | gap ∈ tracker.gaps ∧ gap.1 ≠ start} = tracker.gaps :=
      Set.ext fun gap ↦ ⟨And.left, fun hgap ↦ ⟨hgap, hfresh gap hgap⟩⟩
    rw [hall]
    exact h.lists
  have hslot : Slot tracker.gaps (fun point ↦ point ∈ free ∨ start ≤ point ∧ point < start + size) start size :=
    ⟨hint, fun point hlow hhigh ↦ .inr ⟨hlow, hhigh⟩, fun gap hgap ↦ ⟨hbehind gap hgap, hbefore gap hgap⟩⟩
  unfold joinPrevious
  cases hlast : (tracker.mByStart.below start).getLast? with
  | none => exact ⟨start, size, tracker.mBySize, rfl, hkeep, .inr ⟨le_rfl, by omega⟩, hslot⟩
  | some prev =>
    obtain ⟨prevStart, prevSize⟩ := prev
    obtain ⟨hprev, hbelow⟩ := mem_below.mp (List.mem_of_getLast? hlast)
    have hgap : (prevStart, prevSize) ∈ tracker.gaps := hprev
    dsimp only at hbelow ⊢
    split_ifs with hadjacent
    · obtain ⟨mBySize, herase, hlists⟩ := eraseFromBySize_eq tracker
        {gap | gap ∈ tracker.gaps ∧ gap.1 ≠ prevStart} h.lists hprev hprev fun gap ↦
          and_congr_right fun hmem ↦ not_congr
            ⟨fun heq ↦ eq_of_start hmem hprev heq, congrArg Prod.fst⟩
      obtain ⟨hlow, hhigh⟩ := toInt_bounds (size + prevSize)
      have hle := toInt_le (show -2 ^ 31 ≤ size + prevSize by omega)
      refine ⟨prevStart, toInt (size + prevSize), mBySize, by rw [herase], hlists, .inl (h.start_mem _ hgap),
        ⟨hlow, hhigh⟩, fun point hfrom hto ↦ ?_, fun gap hmem ↦ ⟨fun hlt ↦ ?_, (h.beside _ hgap gap hmem).2⟩⟩
      · by_cases hnear : point < start
        · exact .inl (h.mem_free _ hgap point hfrom (by dsimp only; omega))
        · exact .inr ⟨by omega, by omega⟩
      · have hbeside := (h.beside _ hgap gap hmem).1 hlt
        have hne := hfresh gap hmem
        have hmore := hbehind gap hmem (by dsimp only at hbeside; omega)
        omega
    · exact ⟨start, size, tracker.mBySize, rfl, hkeep, .inr ⟨le_rfl, by omega⟩, hslot⟩

theorem joinNext_slot {first joined : ℤ} {mBySize : OrderedMap ℤ (List ℤ)} {covered : ℤ → Prop}
    (hlists : Lists {gap | gap ∈ tracker.gaps ∧ gap.1 ≠ first} mBySize)
    (hfree : ∀ point ∈ free, covered point) (hslot : Slot tracker.gaps covered first joined) :
    ∃ merged result, ({ tracker with mBySize } : GapIndices).joinNext first joined = (merged, result) ∧
      result.mEmpty = tracker.mEmpty ∧ (∀ gap ∈ result.gaps, gap ∈ tracker.gaps) ∧
      Lists {gap | gap ∈ result.gaps ∧ gap.1 ≠ first} result.mBySize ∧ Slot result.gaps covered first merged := by
  unfold joinNext
  cases hhead : (tracker.mByStart.above first).head? with
  | none => exact ⟨joined, { tracker with mBySize }, rfl, rfl, fun _ ↦ id, hlists, hslot⟩
  | some next =>
    obtain ⟨nextStart, nextSize⟩ := next
    obtain ⟨hnext, habove⟩ := mem_above.mp (List.mem_of_mem_head? hhead)
    have hgap : (nextStart, nextSize) ∈ tracker.gaps := hnext
    dsimp only at habove ⊢
    split_ifs with hadjacent
    · obtain ⟨mBySize', herase, hlists'⟩ := eraseFromBySize_eq { tracker with mBySize }
        {gap | (gap ∈ tracker.gaps ∧ gap.1 ≠ nextStart) ∧ gap.1 ≠ first} hlists hnext ⟨hgap, habove.ne'⟩ fun gap ↦ by
          constructor
          · rintro ⟨⟨hmem, hne⟩, hne'⟩
            exact ⟨⟨hmem, hne'⟩, fun heq ↦ hne (congrArg Prod.fst heq)⟩
          · rintro ⟨⟨hmem, hne'⟩, hne⟩
            exact ⟨⟨hmem, fun heq ↦ hne (eq_of_start hmem hnext heq)⟩, hne'⟩
      have herased (gap : ℤ × ℤ) : gap ∈ (tracker.mByStart.erase nextStart).entries ↔
          gap ∈ tracker.gaps ∧ gap.1 ≠ nextStart := mem_erase
      obtain ⟨hlow, hhigh⟩ := toInt_bounds (joined + nextSize)
      have hsize := h.isInt _ hgap
      have hle := toInt_le (show -2 ^ 31 ≤ joined + nextSize by dsimp only [IsInt] at hsize; omega)
      refine ⟨toInt (joined + nextSize), ⟨tracker.mByStart.erase nextStart, mBySize', tracker.mEmpty⟩, ?_, rfl,
        fun gap hmem ↦ ((herased gap).mp hmem).1, ?_, ⟨hlow, hhigh⟩, fun point hfrom hto ↦ ?_, fun gap hmem ↦ ?_⟩
      · rw [erase, herase]
      · have hsame : {gap | gap ∈ gaps ⟨tracker.mByStart.erase nextStart, mBySize', tracker.mEmpty⟩ ∧ gap.1 ≠ first} =
            {gap | (gap ∈ tracker.gaps ∧ gap.1 ≠ nextStart) ∧ gap.1 ≠ first} :=
          Set.ext fun gap ↦ and_congr_left' (herased gap)
        rw [hsame]
        exact hlists'
      · by_cases hnear : point < nextStart
        · exact hslot.covered point hfrom (by omega)
        · exact hfree point (h.mem_free _ hgap point (by dsimp only; omega) (by dsimp only; omega))
      · obtain ⟨hmem, hne⟩ := (herased gap).mp hmem
        refine ⟨fun hlt ↦ ?_, (hslot.beside gap hmem).2⟩
        have hfirst := (hslot.beside gap hmem).1 hlt
        have hsecond := (h.beside _ hgap gap hmem).1 (by dsimp only; omega)
        dsimp only at hsecond
        omega
    · exact ⟨joined, { tracker with mBySize }, rfl, rfl, fun _ ↦ id, hlists, hslot⟩

theorem Placed.addLocked (hpos : 0 < size) (hint : IsInt size)
    (hnew : Disjoint free (Finset.Ico start (start + size))) :
    Placed (tracker.addLocked start size) (free ∪ Finset.Ico start (start + size)) := by
  have hmem (point : ℤ) : point ∈ free ∪ Finset.Ico start (start + size) ↔
      point ∈ free ∨ start ≤ point ∧ point < start + size := by
    rw [Finset.mem_union, Finset.mem_Ico]
  have hnot (point : ℤ) (hlow : start ≤ point) (hhigh : point < start + size) : point ∉ free := fun hpoint ↦
    Finset.disjoint_left.mp hnew hpoint (Finset.mem_Ico.mpr ⟨hlow, hhigh⟩)
  obtain ⟨first, joined, mBySize, hjoin, hlists, hfirst, hslot⟩ := joinPrevious_slot h hpos hint hnot
  obtain ⟨merged, result, hjoin', hempty, hsubset, hlists', hslot'⟩ :=
    joinNext_slot h hlists (fun point ↦ Or.inl) hslot
  have hadd : tracker.addLocked start size =
      { result.link first merged with
        mEmpty := if tracker.mByStart.entries.isEmpty then false else result.mEmpty } := by
    simp only [GapIndices.addLocked, hjoin, hjoin']
  have hgaps (gap : ℤ × ℤ) : gap ∈ (tracker.addLocked start size).gaps ↔
      gap = (first, merged) ∨ gap ∈ result.gaps ∧ gap.1 ≠ first := by
    rw [hadd]
    exact link_gaps result first merged gap
  refine ⟨?_, ?_, ?_, ?_, ?_, ?_⟩
  · have hlinked := hlists'.link (fun hgap ↦ hgap.2 rfl) hgaps
    rw [hadd] at hlinked ⊢
    exact hlinked
  · have hne : (tracker.addLocked start size).mByStart.entries ≠ [] :=
      List.ne_nil_of_mem ((hgaps _).mpr (.inl rfl))
    refine iff_of_false ?_ hne
    rw [hadd]
    dsimp only
    split_ifs with hnone
    · decide
    · rw [hempty, h.empty_iff]
      simpa using hnone
  · intro gap hgap
    obtain rfl | ⟨hold, -⟩ := (hgaps gap).mp hgap
    · exact hslot'.isInt
    · exact h.isInt gap (hsubset gap hold)
  · intro gap hgap
    rw [hmem]
    obtain rfl | ⟨hold, -⟩ := (hgaps gap).mp hgap
    · exact hfirst
    · exact .inl (h.start_mem gap (hsubset gap hold))
  · intro gap hgap point hlow hhigh
    rw [hmem]
    obtain rfl | ⟨hold, -⟩ := (hgaps gap).mp hgap
    · exact hslot'.covered point hlow hhigh
    · exact .inl (h.mem_free gap (hsubset gap hold) point hlow hhigh)
  · intro gap hgap other hother
    obtain rfl | ⟨hold, -⟩ := (hgaps gap).mp hgap
    · obtain rfl | ⟨hold', -⟩ := (hgaps other).mp hother
      · exact ⟨fun hlt ↦ absurd hlt (lt_irrefl _), fun hlt ↦ absurd hlt (lt_irrefl _)⟩
      · exact hslot'.beside other hold'
    · obtain rfl | ⟨hold', -⟩ := (hgaps other).mp hother
      · exact ⟨(hslot'.beside gap hold).2, (hslot'.beside gap hold).1⟩
      · exact h.beside gap (hsubset gap hold) other (hsubset other hold')

theorem Placed.add (hint : IsInt size) (hnew : Disjoint free (Finset.Ico start (start + size))) :
    Placed (tracker.add start size) (free ∪ Finset.Ico start (start + size)) := by
  unfold GapIndices.add
  split_ifs with hsize
  · rw [Finset.Ico_eq_empty (by omega), Finset.union_empty]
    exact h
  · exact h.addLocked (by omega) hint hnew

/-- A gap has lost its front. -/
theorem Placed.carve {next : GapIndices} {pos rangeSize : ℤ} (hpos : 0 < size)
    (hgap : (pos, rangeSize) ∈ tracker.gaps) (hfit : size ≤ rangeSize) (hlists : Lists next.gaps next.mBySize)
    (hempty : next.mEmpty = true ↔ next.mByStart.entries = [])
    (hgaps : ∀ gap ∈ next.gaps, gap ∈ tracker.gaps ∧ gap.1 ≠ pos ∨ size < rangeSize ∧ gap = (pos + size, rangeSize - size)) :
    Placed next (free \ Finset.Ico pos (pos + size)) := by
  have hmem (point : ℤ) : point ∈ free \ Finset.Ico pos (pos + size) ↔
      point ∈ free ∧ ¬ (pos ≤ point ∧ point < pos + size) := by
    rw [Finset.mem_sdiff, Finset.mem_Ico]
  have haway (gap : ℤ × ℤ) (hold : gap ∈ tracker.gaps) (hne : gap.1 ≠ pos) :
      pos + rangeSize ≤ gap.1 ∨ gap.1 < pos ∧ gap.1 + gap.2 ≤ pos := by
    obtain ⟨hafter, hbefore⟩ := h.beside _ hgap gap hold
    rcases lt_or_gt_of_ne hne with hlt | hgt
    · exact .inr ⟨hlt, hbefore hlt⟩
    · exact .inl (hafter hgt)
  have hrange := h.isInt _ hgap
  refine ⟨hlists, hempty, ?_, ?_, ?_, ?_⟩
  · intro gap hnext
    obtain ⟨hold, -⟩ | ⟨hmore, rfl⟩ := hgaps gap hnext
    · exact h.isInt gap hold
    · obtain ⟨hlow, hhigh⟩ := hrange
      dsimp only at hlow hhigh
      exact ⟨by dsimp only; omega, by dsimp only; omega⟩
  · intro gap hnext
    rw [hmem]
    obtain ⟨hold, hne⟩ | ⟨hmore, rfl⟩ := hgaps gap hnext
    · refine ⟨h.start_mem gap hold, ?_⟩
      rcases haway gap hold hne with hafter | ⟨hbefore, -⟩ <;> omega
    · exact ⟨h.mem_free _ hgap _ (by dsimp only; omega) (by dsimp only; omega), by dsimp only; omega⟩
  · intro gap hnext point hlow hhigh
    rw [hmem]
    obtain ⟨hold, hne⟩ | ⟨hmore, rfl⟩ := hgaps gap hnext
    · refine ⟨h.mem_free gap hold point hlow hhigh, ?_⟩
      rcases haway gap hold hne with hafter | ⟨-, hbefore⟩ <;> omega
    · dsimp only at hlow hhigh
      exact ⟨h.mem_free _ hgap point (by dsimp only; omega) (by dsimp only; omega), by omega⟩
  · intro gap hnext other hnext'
    obtain ⟨hold, hne⟩ | ⟨hmore, rfl⟩ := hgaps gap hnext
    · obtain ⟨hold', -⟩ | ⟨hmore', rfl⟩ := hgaps other hnext'
      · exact h.beside gap hold other hold'
      · rcases haway gap hold hne with hafter | ⟨hlt, hbefore⟩
        · exact ⟨fun hlt ↦ by dsimp only at hlt; omega, fun _ ↦ by dsimp only; omega⟩
        · exact ⟨fun _ ↦ by dsimp only; omega, fun hlt' ↦ by dsimp only at hlt'; omega⟩
    · obtain ⟨hold', hne'⟩ | ⟨-, rfl⟩ := hgaps other hnext'
      · rcases haway other hold' hne' with hafter | ⟨hlt, hbefore⟩
        · exact ⟨fun _ ↦ by dsimp only; omega, fun hlt ↦ by dsimp only at hlt; omega⟩
        · exact ⟨fun hlt' ↦ by dsimp only at hlt'; omega, fun _ ↦ by dsimp only; omega⟩
      · exact ⟨fun hlt ↦ absurd hlt (lt_irrefl _), fun hlt ↦ absurd hlt (lt_irrefl _)⟩

theorem Placed.allocate (hpos : 0 < size) : Placed (tracker.allocate size).2
      ((tracker.allocate size).1.elim free fun pos ↦ free \ Finset.Ico pos (pos + size)) := by
  unfold GapIndices.allocate
  cases hempty : tracker.mEmpty with
  | true => exact h
  | false =>
    rw [if_neg (by decide)]
    cases hhead : (tracker.mBySize.notBelow size).head? with
    | none => exact h
    | some entry =>
      obtain ⟨rangeSize, starts⟩ := entry
      dsimp only
      cases hstart : starts.head? with
      | none => exact h
      | some pos =>
        obtain ⟨hgap, hfit, -⟩ := bestFit_of_head h.lists hhead hstart
        have herased (gap : ℤ × ℤ) : gap ∈ (tracker.mByStart.erase pos).entries ↔
            gap ∈ tracker.gaps ∧ gap.1 ≠ pos := mem_erase
        obtain ⟨mBySize, herase, hlists⟩ := eraseFromBySize_eq tracker
          {gap | gap ∈ (tracker.mByStart.erase pos).entries} h.lists hgap hgap fun gap ↦ by
            refine (herased gap).trans (and_congr_right fun hmem ↦ not_congr ⟨fun heq ↦ ?_, congrArg Prod.fst⟩)
            exact eq_of_start hmem hgap heq
        have heq : tracker.erase pos = ⟨tracker.mByStart.erase pos, mBySize, false⟩ := by
          rw [erase, herase, hempty]
        have hkept (gap : ℤ × ℤ) (hmem : gap ∈ (tracker.mByStart.erase pos).entries) :
            gap ∈ tracker.gaps ∧ gap.1 ≠ pos ∨ size < rangeSize ∧ gap = (pos + size, rangeSize - size) :=
          .inl ((herased gap).mp hmem)
        dsimp only
        rw [heq]
        by_cases hmore : rangeSize > size
        · have hinside : ∀ gap ∈ tracker.gaps, gap.1 ≠ pos + size := by
            intro gap hmem heq
            have hbehind := (h.beside _ hgap gap hmem).1 (by dsimp only; omega)
            dsimp only at hbehind
            omega
          have hlink (gap : ℤ × ℤ) :
              gap ∈ (link (pos + size) (rangeSize - size) ⟨tracker.mByStart.erase pos, mBySize, false⟩).gaps ↔
                gap = (pos + size, rangeSize - size) ∨ gap ∈ (tracker.mByStart.erase pos).entries := by
            refine (link_gaps _ _ _ gap).trans (or_congr_right (and_iff_left_of_imp fun hmem ↦ ?_))
            exact hinside gap ((herased gap).mp hmem).1
          rw [if_pos hmore]
          refine h.carve hpos hgap hfit (hlists.link (fun hmem ↦ hinside _ ((herased _).mp hmem).1 rfl) hlink)
            (iff_of_false (by simp [link]) (List.ne_nil_of_mem ((hlink _).mpr (.inl rfl)))) fun gap hmem ↦ ?_
          exact ((hlink gap).mp hmem).elim (fun heq ↦ .inr ⟨hmore, heq⟩) (hkept gap)
        · rw [if_neg hmore]
          dsimp only
          split_ifs with hnone
          · have hempty' : (true : Bool) = true ↔ (tracker.mByStart.erase pos).entries = [] := iff_of_true rfl hnone
            exact h.carve hpos hgap hfit hlists hempty' hkept
          · have hempty' : (false : Bool) = true ↔ (tracker.mByStart.erase pos).entries = [] :=
              iff_of_false Bool.false_ne_true hnone
            exact h.carve hpos hgap hfit hlists hempty' hkept

end

/-- The condition on a tracker that is saved. -/
def AllSavable (tracker : GapIndices) : Prop :=
  tracker.mBySize.entries.length < 2 ^ 31 ∧ ∀ entry ∈ tracker.mBySize.entries, Savable entry.2

instance (tracker : GapIndices) : Decidable tracker.AllSavable := inferInstanceAs (Decidable (_ ∧ _))

theorem Placed.persists (h : Placed tracker free) (hfree : ∀ point ∈ free, IsInt64 point)
    (hsavable : tracker.AllSavable) :
    genericGapTracker.Persists (fun _ _ ↦ True) tracker ∧
      ∀ size, (∀ gap ∈ tracker.gaps, gap.2 = size) → genericGapTracker.LoadsAs oneSizeGapTracker tracker := by
  have hloadable := loadable tracker h.lists
    (fun gap hgap ↦ ⟨h.isInt gap hgap, hfree _ (h.start_mem gap hgap)⟩) hsavable.2
  have hload (rest : List UInt8) : genericGapTracker.load genericGapTracker.new
      (genericGapTracker.save tracker ++ rest) = (tracker, rest) :=
    load_save tracker .new hloadable h.lists h.empty_iff hsavable.1 rest
  refine ⟨⟨fun rest ↦ ?_, fun rest ↦ ?_, fun rest calls _ ↦ ?_⟩, fun size hone rest ↦ ?_⟩
  · rw [hload]
  · rw [hload]
  · rw [hload]
  · exact oneSize_load_save tracker hloadable h.lists hone rest

end GapIndices

/-- A tracker and the bytes that have been added and not allocated since. -/
structure FreeGaps where
  tracker : GapIndices
  free : Finset ℤ

namespace FreeGaps

open GapIndices

def start : FreeGaps := ⟨.new, ∅⟩

/-- What is added is a range of positions that are not free yet. -/
def step : GapCall → FreeGaps → Option FreeGaps
  | .add start size, s =>
    if (IsInt size ∧ IsInt64 start ∧ (0 < size → IsInt64 (start + size))) ∧
        Disjoint s.free (Finset.Ico start (start + size)) then
      some ⟨s.tracker.add start size, s.free ∪ Finset.Ico start (start + size)⟩
    else none
  | .allocate size, s =>
    if 0 < size then
      some ⟨(s.tracker.allocate size).2,
        (s.tracker.allocate size).1.elim s.free fun pos ↦ s.free \ Finset.Ico pos (pos + size)⟩
    else none

structure Held (s : FreeGaps) : Prop where
  placed : Placed s.tracker s.free
  isInt64 : ∀ point ∈ s.free, IsInt64 point

theorem held_start : start.Held where
  placed := by
    have hnone : ∀ gap, gap ∉ (start.tracker).gaps := fun gap hgap ↦ by
      simp [start, gaps, new, empty] at hgap
    refine ⟨⟨fun first size ↦ iff_of_false (hnone _) ?_, ?_, ?_⟩, iff_of_true rfl rfl, ?_, ?_, ?_, ?_⟩
    · simp [start, new, empty]
    · simp [start, new, empty]
    · simp [start, new, empty]
    all_goals exact fun gap hgap ↦ absurd hgap (hnone gap)
  isInt64 := by simp [start]

theorem held_step {s next : FreeGaps} {call : GapCall} (h : s.Held) (hstep : step call s = some next) :
    next.Held := by
  cases call with
  | add start size =>
    simp only [step] at hstep
    split_ifs at hstep with hcall
    obtain ⟨⟨hsize, hstart, hend⟩, hdisjoint⟩ := hcall
    cases hstep
    refine ⟨h.placed.add hsize hdisjoint, fun point hpoint ↦ ?_⟩
    rcases Finset.mem_union.mp hpoint with hold | hnew
    · exact h.isInt64 point hold
    · obtain ⟨hlow, hhigh⟩ := Finset.mem_Ico.mp hnew
      exact ⟨hstart.1.trans hlow, hhigh.trans (hend (by omega)).2⟩
  | allocate size =>
    simp only [step] at hstep
    split_ifs at hstep with hsize
    cases hstep
    refine ⟨h.placed.allocate hsize, fun point hpoint ↦ h.isInt64 point ?_⟩
    dsimp only at hpoint
    cases hpos : (s.tracker.allocate size).1 with
    | none =>
      rw [hpos] at hpoint
      exact hpoint
    | some pos =>
      rw [hpos] at hpoint
      exact (Finset.mem_sdiff.mp hpoint).1

end FreeGaps

/-! ## Runs of both classes -/

/-- Trackers of either class come back from their bytes, and from those of the other class. -/
theorem persistent_of_savable (calls : List GapCall) :
    (∀ last, run FreeGaps.step .start calls = some last → last.tracker.AllSavable →
      genericGapTracker.Persists (fun _ _ ↦ True) last.tracker ∧
        ∀ size, (∀ gap ∈ last.tracker.gaps, gap.2 = size) →
          genericGapTracker.LoadsAs oneSizeGapTracker last.tracker) ∧
    ∀ last, Guarded OneSizeGapTracker.step OneSizeGapTracker.FitsCall .new calls →
      run OneSizeGapTracker.step .new calls = some last → Savable last.remaining →
      oneSizeGapTracker.Persists OneSizeGapTracker.FitsCall last ∧
        oneSizeGapTracker.LoadsAs genericGapTracker last ∧
        ∀ rest, (GapIndices.gapsBySize (GapIndices.new.load (last.save ++ rest)).1.mBySize).Perm last.gaps := by
  refine ⟨fun last hrun hsavable ↦ ?_, fun last hfits hrun hsavable ↦ ?_⟩
  · have hheld : last.Held :=
      invariant_of_run (fun _ _ _ h hstep ↦ FreeGaps.held_step h hstep) FreeGaps.held_start hrun
    exact hheld.placed.persists hheld.isInt64 hsavable
  · have hheld : last.Held := invariant_of_guarded OneSizeGapTracker.Held
      (fun _ _ _ h hcall hstep ↦ OneSizeGapTracker.held_step h hcall hstep) OneSizeGapTracker.held_new hfits hrun
    exact ⟨hheld.persists hsavable, hheld.loadsAs hsavable⟩

/-- Gaps whose starts do not ascend in the list of their size, one of which is used up. -/
def unsortedGaps : List GapCall := [.add 100 10, .add 20 10, .add 60 10, .allocate 10]

theorem persistent_unsortedGaps :
    (∃ last, run FreeGaps.step .start unsortedGaps = some last ∧
      last.tracker.mBySize.entries = [(10, [20, 60])] ∧
      genericGapTracker.Persists (fun _ _ ↦ True) last.tracker ∧
      genericGapTracker.LoadsAs oneSizeGapTracker last.tracker) ∧
    ∃ last, run OneSizeGapTracker.step .new unsortedGaps = some last ∧ last.mCurrentPos = 1 ∧
      last.gaps = [(20, 10), (60, 10)] ∧ oneSizeGapTracker.Persists OneSizeGapTracker.FitsCall last ∧
      oneSizeGapTracker.LoadsAs genericGapTracker last := by
  have hgeneric : (run FreeGaps.step .start unsortedGaps).map
      (fun last ↦ (last.tracker.mBySize.entries, last.tracker.mByStart.entries)) =
        some ([(10, [20, 60])], [(20, 10), (60, 10)]) := by
    decide +kernel
  obtain ⟨last, hrun, hlast⟩ := Option.map_eq_some_iff.mp hgeneric
  obtain ⟨hsizes, hstarts⟩ := Prod.mk.inj hlast
  obtain ⟨hpersists, hloads⟩ := (persistent_of_savable unsortedGaps).1 last hrun
    (by rw [GapIndices.AllSavable, hsizes]; decide)
  have hone : (run OneSizeGapTracker.step .new unsortedGaps) = some ⟨[100, 20, 60], 1, 10, false⟩ := by
    decide +kernel
  obtain ⟨hpersists', hloads', -⟩ := (persistent_of_savable unsortedGaps).2 _ (by decide +kernel) hone (by decide)
  refine ⟨⟨last, hrun, hsizes, hpersists, hloads 10 fun gap hgap ↦ ?_⟩,
    _, hone, rfl, by decide, hpersists', hloads'⟩
  rw [GapIndices.gaps, Set.mem_ofPred_eq, hstarts] at hgap
  revert gap
  decide

/-- Pages that are added one after the other. -/
def pageGaps (count : ℕ) : List GapCall := (List.range count).map fun i : ℕ ↦ .add (4096 * i) 4096

/-- The tracker that has these pages. -/
def ofPages (count : ℕ) : OneSizeGapTracker where
  mGapStarts := (List.range count).map fun i : ℕ ↦ 4096 * (i : ℤ)
  mCurrentPos := 0
  mSize := if count = 0 then 0 else 4096
  mEmpty := count = 0

theorem run_pageGaps {count : ℕ} (hcount : count < 2 ^ 40) :
    run OneSizeGapTracker.step .new (pageGaps count) = some (ofPages count) := by
  induction count with
  | zero => rfl
  | succ count ih =>
    have hnew : 4096 * (count : ℤ) ∉ (ofPages count).remaining := by
      intro hmem
      obtain ⟨i, hi, heq⟩ := List.mem_map.mp hmem
      have hlt := List.mem_range.mp hi
      omega
    have hcall : (IsInt 4096 ∧ IsInt64 (4096 * (count : ℤ))) ∧ 4096 * (count : ℤ) ∉ (ofPages count).remaining :=
      ⟨⟨by decide, by unfold IsInt64; omega⟩, hnew⟩
    have hadd : (ofPages count).add (4096 * count) 4096 = ofPages (count + 1) := by
      have hlength : ((ofPages count).mGapStarts.length : ℤ) = count := by simp [ofPages]
      simp only [OneSizeGapTracker.add, hlength]
      cases count with
      | zero => rfl
      | succ count =>
        simp [ofPages, List.range_succ]
    rw [pageGaps, List.range_succ, List.map_append, run_append, ← pageGaps, ih (by omega), Option.bind_some]
    simp only [List.map_cons, List.map_nil, run_cons, run_nil, OneSizeGapTracker.step, if_pos hcall,
      Option.bind_some, hadd]

/-- With 2^31 gaps or more the counter of the loop ends too soon. -/
theorem not_persists_ofPages {count : ℕ} (hmany : 2 ^ 31 < count) (hcount : count < 2 ^ 40) :
    ¬ oneSizeGapTracker.Persists OneSizeGapTracker.FitsCall (ofPages count) := by
  intro hpersists
  have hlength : (ofPages count).remaining.length = count := by simp [ofPages, OneSizeGapTracker.remaining]
  have hempty : ¬ (ofPages count).mEmpty = true := by simp [ofPages]; omega
  have hone : (1 : UInt32).toNat > 0 := by decide
  have hcut : min (count - 1) (2 ^ 31 - 1) + 1 < count := by omega
  have hgroup : (loadGroup (saveGroup (ofPages count).mSize (ofPages count).remaining ++ [])).1.2.length = _ :=
    length_loadGroup_saveGroup (by omega) []
  have hload : (OneSizeGapTracker.new.load ((ofPages count).save ++ [])).1.gaps.length =
      (loadGroup (saveGroup (ofPages count).mSize (ofPages count).remaining ++ [])).1.2.length := by
    rw [OneSizeGapTracker.save, if_neg hempty, OneSizeGapTracker.load, append_assoc, getBe32_putBe32]
    simp only [if_pos hone, OneSizeGapTracker.gaps, List.length_map]
    rfl
  rw [hgroup, hlength] at hload
  have hgaps : (ofPages count).gaps.length = count := by rw [OneSizeGapTracker.gaps, List.length_map, hlength]
  have hsame := (hpersists.gaps []).length_eq
  have hall : (OneSizeGapTracker.new.load ((ofPages count).save ++ [])).1.gaps.length = count := hsame.trans hgaps
  exact hcut.ne (hload.symm.trans hall)

theorem many_gaps_lost :
    ∃ last, run OneSizeGapTracker.step .new (pageGaps (2 ^ 31 + 1)) = some last ∧
      ¬ oneSizeGapTracker.Persists OneSizeGapTracker.FitsCall last :=
  ⟨_, run_pageGaps (by decide), not_persists_ofPages (by decide) (by decide)⟩

end FdeEmugl.Snapshot
